import Mathlib.Data.Multiset.AddSub
import Geata.Geatafile.Safe
import Geata.Geatafile.Lines
import Geata.Geatafile.Groups

namespace Geata.Geatafile

open Geata.Lib Geata.Lightning Geata.Payments

/-!
# The order of blocks

A file is a list of blocks.  The first pass looks for receivers only, the second for sites and
payouts only, and in both a block either fails or adds a value of its own: blocks can stand in any
order, and so can the directives of each site.

* `TopBlock.spell` — the tokens of a block.
* `collect_spell`, `addBlock_spell` — what the two passes make of blocks.
* `order_does_not_matter` — **the order of blocks and directives does not matter**.
-/

variable {X : Geatafile.Crates}

/-! ### Blocks as they are written -/

/-- A block of a file. -/
inductive TopBlock where
  | lightning (quoted : Bool) (name : Word) (body : List Word)
  | payout (quoted : Bool) (body : List Word)
  | site (address : Word) (groups : List Group)

namespace TopBlock

/-- The token a block starts with. -/
def head : TopBlock → Token
  | .lightning quoted _ _ => ⟨0, .text "lightning", quoted⟩
  | .payout quoted _ => ⟨0, .text "cashu_payout", quoted⟩
  | .site address _ => address.token

/-- What stands between the braces. -/
def body : TopBlock → List Token
  | .lightning _ _ body => body.map Word.token
  | .payout _ body => body.map Word.token
  | .site _ groups => groups.flatMap Group.spell

/-- The name of a receiver. -/
def names : TopBlock → List Token
  | .lightning _ name _ => [name.token]
  | _ => []

/-- The tokens after the first. -/
def tail (block : TopBlock) : List Token :=
  block.names ++ ⟨0, .open, false⟩ :: (block.body ++ [⟨0, .close, false⟩])

def spell (block : TopBlock) : List Token := block.head :: block.tail

/-- What a parser makes of the block. -/
def block (block : TopBlock) : Block where
  name := match block with
    | .lightning _ name _ => some name.text
    | _ => none
  address := block.head.text.getD ""
  body := block.body
  line := 0

/-- Site blocks have addresses of sites, and groups with the arguments they take. -/
def WellFormed : TopBlock → Prop
  | .site address groups =>
    address.text ≠ "lightning" ∧ address.text ≠ "cashu_payout" ∧
      ∀ group ∈ groups, group.WellFormed
  | _ => True

/-- The same block, but for the order of the groups of a site. -/
inductive Reordered : TopBlock → TopBlock → Prop where
  | refl (block : TopBlock) : Reordered block block
  | site (address : Word) {groups groups' : List Group} (h : groups.Perm groups') :
    Reordered (.site address groups) (.site address groups')

/-- The name of a receiver can be one. -/
def named : TopBlock → Bool
  | .lightning _ name _ => !name.text.isEmpty &&
      name.text.toList.all (fun c => c.isAlphanum || c == '_' || c == '-')
  | _ => true

theorem body_texts (block : TopBlock) : ∀ token ∈ block.body, token.text.isSome = true := by
  have hwords : ∀ words : List Word, ∀ token ∈ words.map Word.token, token.text.isSome = true := by
    intro words token htoken
    obtain ⟨word, -, rfl⟩ := List.mem_map.mp htoken
    rfl
  intro token htoken
  cases block with
  | lightning quoted name body => exact hwords body token htoken
  | payout quoted body => exact hwords body token htoken
  | site address groups =>
    obtain ⟨group, -, hmem⟩ := List.mem_flatMap.mp htoken
    rcases List.mem_cons.mp hmem with rfl | hmem
    · rfl
    · exact hwords group.args token hmem

theorem head_text (block : TopBlock) : block.head.text = some block.block.address := by
  cases block <;> rfl

end TopBlock

theorem blockName_spell {block : TopBlock} (hblock : block.WellFormed) (rest : List Token) :
    (blockName 0 block.block.address (block.names ++ rest)).toOption
      = if block.named then some (block.block.name, rest) else none := by
  unfold blockName
  cases block with
  | lightning quoted name body =>
    show (Except.map _ (receiverName 0 (name.token :: rest))).toOption = _
    unfold receiverName
    simp only [toOption_map, toOption_bind, toOption_context, toOption_ensure, toOption_pure,
      bind_ite_unit]
    show Option.map _ (if TopBlock.named (.lightning quoted name body) = true then _ else _) = _
    split <;> rfl
  | payout quoted body => rfl
  | site address groups =>
    have hne : (address.text == "lightning") = false := beq_eq_false_iff_ne.mpr hblock.1
    show (if (address.text == "lightning") = true then _ else _ : Except _ _).toOption = _
    rw [hne]
    rfl

/-- A block is taken off as it was put down. -/
theorem takeBlock_spell {block : TopBlock} (hblock : block.WellFormed) (rest : List Token) :
    (takeBlock block.head (block.tail ++ rest)).toOption
      = if block.named then some (block.block, rest) else none := by
  have htail : block.tail ++ rest
      = block.names ++ (⟨0, .open, false⟩ :: (block.body ++ ⟨0, .close, false⟩ :: rest)) := by
    simp [TopBlock.tail]
  have hline : block.head.line = 0 := by cases block <;> rfl
  have hbody : (block.body ++ ⟨0, .close, false⟩ :: rest).takeWhile
      (fun token : Token => token.text.isSome) = block.body := by
    rw [List.takeWhile_append_of_pos block.body_texts]
    show block.body ++ [] = block.body
    rw [List.append_nil]
  unfold takeBlock
  simp only [toOption_bind, toOption_context, block.head_text, Option.bind_some, htail, hline,
    blockName_spell hblock]
  split
  · simp only [Option.bind_some, expect, if_true, toOption_ok, hbody, List.drop_left, toOption_pure]
    rfl
  · rfl

/-! ### The first pass -/

/-- The receiver of a block, where it has one. -/
def TopBlock.receiver (X : Geatafile.Crates) (block : TopBlock) :
    Option (Option (String × ReceiverConfig)) :=
  if block.named then
    match block.block.name with
    | some name =>
      (ReceiverConfig.parse X block.block.texts).toOption.map (fun receiver => some (name, receiver))
    | none => some none
  else none

/-- A row that must not be there yet. -/
def addRow {β : Type} (table : Table β) (row : String × β) : Option (Table β) :=
  if (table.lookup row.1).isNone then some (table.insert row.1 row.2) else none

/-- The rows of a table are slots. -/
theorem addRow_view {β : Type} (table : Table β) (row : String × β) :
    (addRow table row).map (fun t k => t.lookup k) = mapSlots.step (fun k => table.lookup k) row := by
  have hput : (fun k => (table.insert row.1 row.2).lookup k)
      = Function.update (fun k => table.lookup k) row.1 (some row.2) := by
    ext1 k
    rw [Table.lookup_insert_eq, Function.update_apply]
  unfold addRow Slots.step
  show _ = if (table.lookup row.1).isSome = true then none else some (Function.update _ row.1 _)
  rw [← hput]
  cases table.lookup row.1 <;> rfl

/-- What the first pass does with a block. -/
def receive (X : Geatafile.Crates) (table : Table ReceiverConfig) (block : TopBlock) :
    Option (Table ReceiverConfig) :=
  (block.receiver X).bind (offer addRow table)

/-- The blocks that the second pass reads. -/
def TopBlock.later (block : TopBlock) : Bool := block.block.name.isNone

/-- The first pass collects the receivers, and keeps the other blocks in their order. -/
theorem collect_spell {blocks : List TopBlock} (hblocks : ∀ block ∈ blocks, block.WellFormed)
    {fuel : ℕ} (hfuel : (blocks.flatMap TopBlock.spell).length ≤ fuel)
    (found : Table ReceiverConfig × List Block) :
    (collect X fuel found (blocks.flatMap TopBlock.spell)).toOption
      = (blocks.foldlM (receive X) found.1).map
          (fun table => (table, found.2 ++ (blocks.filter TopBlock.later).map TopBlock.block)) := by
  induction blocks generalizing fuel found with
  | nil => cases fuel <;> simp [collect]
  | cons block blocks ih =>
    have hblock := hblocks block List.mem_cons_self
    rw [List.flatMap_cons] at hfuel
    have hcons : block.spell ++ blocks.flatMap TopBlock.spell
        = block.head :: (block.tail ++ blocks.flatMap TopBlock.spell) := rfl
    rw [hcons, List.length_cons, List.length_append] at hfuel
    cases fuel with
    | zero => omega
    | succ fuel =>
      have ih := fun found => ih (fun b hb => hblocks b (List.mem_cons_of_mem block hb))
        (show (blocks.flatMap TopBlock.spell).length ≤ fuel by omega) found
      have hreceive : receive X found.1 block
          = (block.receiver X).bind (offer addRow found.1) := rfl
      rw [List.flatMap_cons, hcons, List.foldlM_cons, hreceive, TopBlock.receiver]
      simp only [collect, toOption_bind, takeBlock_spell hblock]
      split
      · simp only [Option.bind_some, ih]
        unfold declare
        cases hname : block.block.name with
        | none =>
          have hlater : block.later = true := by
            rw [TopBlock.later, hname]
            rfl
          simp [offer, hlater]
        | some name =>
          have hlater : block.later = false := by
            rw [TopBlock.later, hname]
            rfl
          simp only [toOption_bind, toOption_mapError, toOption_ensure, bind_ite_unit,
            toOption_pure, List.filter_cons, hlater]
          cases (ReceiverConfig.parse X block.block.texts).toOption with
          | none => rfl
          | some receiver =>
            simp only [Option.bind_some, Option.map_some, offer, addRow]
            cases (found.1.lookup name).isNone <;> rfl
      · rfl

/-! ### The second pass -/

/-- What a block adds to a configuration. -/
def Block.part (X : Geatafile.Crates) (receivers : Table ReceiverConfig) (block : Block) :
    Option ((String × Site) ⊕ PayoutPolicy) :=
  if block.address == "cashu_payout" then
    (PayoutPolicy.parse X block.texts).toOption.map Sum.inr
  else if validDomain block.domain block.https then
    (parseSite X receivers block block.domain block.https).toOption.map
      (fun site => Sum.inl (block.domain, site))
  else none

/-- A configuration without the order of its parts. -/
def Config.view (config : Config) : (String → Option Site) × Multiset PayoutPolicy :=
  (fun domain => config.sites.lookup domain, config.payouts)

/-- A payout whose mint has none yet. -/
def addPolicy (payouts : Multiset PayoutPolicy) (payout : PayoutPolicy) :
    Option (Multiset PayoutPolicy) :=
  if (∀ p ∈ payouts, p.mint ≠ payout.mint) ∧ payouts.card < 16 then some (payout ::ₘ payouts)
  else none

theorem addPolicy_comm (payouts : Multiset PayoutPolicy) (a b : PayoutPolicy) :
    (addPolicy payouts a).bind (fun payouts => addPolicy payouts b)
      = (addPolicy payouts b).bind (fun payouts => addPolicy payouts a) := by
  -- either order fails, or neither, on the mints of both and on one more payout
  have hboth : ∀ a b : PayoutPolicy, (addPolicy payouts a).bind (fun payouts => addPolicy payouts b)
      = if (∀ p ∈ payouts, p.mint ≠ a.mint) ∧ (∀ p ∈ payouts, p.mint ≠ b.mint) ∧ a.mint ≠ b.mint ∧
          payouts.card + 1 < 16 then some (b ::ₘ a ::ₘ payouts) else none := by
    intro a b
    unfold addPolicy
    split
    · simp only [Option.bind_some, Multiset.mem_cons, Multiset.card_cons, forall_eq_or_imp]
      refine if_congr ?_ rfl rfl
      tauto
    · rw [if_neg]
      · rfl
      · rintro ⟨h, -, -, hcard⟩
        have : payouts.card < 16 := by omega
        tauto
  rw [hboth a b, hboth b a, Multiset.cons_swap]
  refine if_congr ?_ rfl rfl
  rw [ne_comm (a := a.mint)]
  tauto

theorem addPayout_view (config : Config) (block : Block) :
    (addPayout X config block).toOption.map Config.view
      = ((PayoutPolicy.parse X block.texts).toOption.map Sum.inr).bind
          (either mapSlots.step addPolicy config.view) := by
  unfold addPayout
  simp only [toOption_bind, toOption_mapError, toOption_ensure, bind_ite_unit, toOption_pure]
  cases (PayoutPolicy.parse X block.texts).toOption with
  | none => rfl
  | some payout =>
    have hnew : (!config.payouts.any (fun p => p.mint == payout.mint)) = true
        ↔ ∀ p ∈ config.payouts, p.mint ≠ payout.mint := by
      simp
    have hview : (↑(config.payouts ++ [payout]) : Multiset PayoutPolicy)
        = payout ::ₘ (config.payouts : Multiset PayoutPolicy) := by
      rw [← Multiset.coe_add, Multiset.add_comm]
      rfl
    show (if (!config.payouts.any (fun p => p.mint == payout.mint)) = true then
        if decide (config.payouts.length < 16) = true then some _ else none else none).map _
      = Option.map _ (addPolicy ↑config.payouts payout)
    unfold addPolicy
    simp only [hnew, decide_eq_true_eq, Multiset.mem_coe, Multiset.coe_card]
    by_cases hmint : ∀ p ∈ config.payouts, p.mint ≠ payout.mint
    · by_cases hcard : config.payouts.length < 16
      · rw [if_pos hmint, if_pos hcard, if_pos ⟨hmint, hcard⟩]
        exact congrArg (fun payouts => some (_, payouts)) hview
      · rw [if_pos hmint, if_neg hcard, if_neg (fun h => hcard h.2)]
        rfl
    · rw [if_neg hmint, if_neg (fun h => hmint h.1)]
      rfl

theorem addSite_view (receivers : Table ReceiverConfig) (config : Config) (block : Block)
    (domain : String) (https : Bool) :
    (addSite X receivers config block domain https).toOption.map Config.view
      = ((parseSite X receivers block domain https).toOption.map
          (fun site => Sum.inl (domain, site))).bind
          (either mapSlots.step addPolicy config.view) := by
  unfold addSite
  simp only [toOption_bind, toOption_ensure, bind_ite_unit, toOption_pure]
  cases (parseSite X receivers block domain https).toOption with
  | none => rfl
  | some site =>
    have hrow := addRow_view config.sites (domain, site)
    show Option.map _ (if (config.sites.lookup domain).isNone = true then _ else none)
      = Option.map _ (mapSlots.step (fun k => config.sites.lookup k) (domain, site))
    rw [← hrow, addRow]
    split <;> rfl

/-- The second pass adds the part of a block. -/
theorem addBlock_view (receivers : Table ReceiverConfig) (config : Config) (block : Block) :
    (addBlock X receivers config block).toOption.map Config.view
      = (block.part X receivers).bind (either mapSlots.step addPolicy config.view) := by
  unfold addBlock Block.part
  simp only [toOption_bind, toOption_ensure, bind_ite_unit]
  cases block.address == "cashu_payout" with
  | true =>
    rw [Bool.true_or, if_pos rfl]
    exact addPayout_view config block
  | false =>
    rw [Bool.false_or]
    split
    · exact addSite_view receivers config block block.domain block.https
    · rfl

/-- The second pass over all blocks, of which it skips the receivers. -/
def TopBlock.part (X : Geatafile.Crates) (receivers : Table ReceiverConfig) (block : TopBlock) :
    Option (Option ((String × Site) ⊕ PayoutPolicy)) :=
  if block.later then (block.block.part X receivers).map some else some none

theorem foldlM_addBlock_view (receivers : Table ReceiverConfig) (blocks : List TopBlock)
    (config : Config) :
    ((((blocks.filter TopBlock.later).map TopBlock.block).foldlM (addBlock X receivers)
        config).toOption).map Config.view
      = blocks.foldlM (fun view block => (TopBlock.part X receivers block).bind
          (offer (either mapSlots.step addPolicy) view)) config.view := by
  induction blocks generalizing config with
  | nil => rfl
  | cons block blocks ih =>
    rw [List.foldlM_cons, TopBlock.part]
    cases hlater : block.later with
    | true =>
      have hview := addBlock_view (X := X) receivers config block.block
      rw [List.filter_cons_of_pos hlater, List.map_cons, List.foldlM_cons, toOption_bind]
      cases hpart : block.block.part X receivers with
      | none =>
        rw [hpart] at hview
        have hnone := Option.map_eq_none_iff.mp hview
        rw [hnone]
        rfl
      | some part =>
        rw [hpart] at hview
        have hoffer : ((some part).map some).bind
            (offer (either mapSlots.step addPolicy) config.view)
            = (addBlock X receivers config block.block).toOption.map Config.view := hview.symm
        rw [if_pos rfl, hoffer]
        cases (addBlock X receivers config block.block).toOption with
        | none => rfl
        | some config => exact ih config
    | false =>
      rw [List.filter_cons_of_neg (by simp [hlater])]
      exact ih config

/-- Only the rows of the receivers matter. -/
theorem part_congr {receivers receivers' : Table ReceiverConfig}
    (h : (fun k => receivers.lookup k) = fun k => receivers'.lookup k) (block : TopBlock) :
    block.part X receivers = block.part X receivers' := by
  have hpolicy : ∀ (state : SiteBlock) line domain https,
      state.policy X line receivers domain https = state.policy X line receivers' domain https := by
    intro state line domain https
    unfold SiteBlock.policy
    have hlookup : ∀ name, receivers.lookup name = receivers'.lookup name := congrFun h
    simp only [hlookup]
  unfold TopBlock.part Block.part parseSite parseDirectives SiteBlock.finish
  simp only [hpolicy]

/-! ### Rearranged files -/

namespace TopBlock.Reordered

variable {block block' : TopBlock}

theorem wellFormed (h : Reordered block block') (hblock : block.WellFormed) : block'.WellFormed := by
  cases h with
  | refl => exact hblock
  | site address hperm =>
    exact ⟨hblock.1, hblock.2.1, fun group hgroup => hblock.2.2 group (hperm.mem_iff.mpr hgroup)⟩

theorem receiver (h : Reordered block block') : block.receiver X = block'.receiver X := by
  cases h <;> rfl

/-- The order of the groups does not matter to the part a block adds. -/
theorem part (h : Reordered block block') (hblock : block.WellFormed)
    (receivers : Table ReceiverConfig) : block.part X receivers = block'.part X receivers := by
  cases h with
  | refl => rfl
  | @site address groups groups' hperm =>
    have hsite : ∀ domain https,
        (parseSite X receivers (TopBlock.site address groups).block domain https).toOption
          = (parseSite X receivers (TopBlock.site address groups').block domain https).toOption := by
      intro domain https
      unfold parseSite
      rw [toOption_bind, toOption_bind]
      exact congrArg₂ Option.bind
        (parseDirectives_perm hperm hblock.2.2 receivers domain https) rfl
    have haddress : (address.text == "cashu_payout") = false :=
      beq_eq_false_iff_ne.mpr hblock.2.1
    show ((TopBlock.site address groups).block.part X receivers).map some
      = ((TopBlock.site address groups').block.part X receivers).map some
    refine congrArg _ ?_
    show (if (address.text == "cashu_payout") = true then _ else _)
      = (if (address.text == "cashu_payout") = true then _ else _)
    rw [haddress, if_neg Bool.false_ne_true, if_neg Bool.false_ne_true]
    show (if validDomain (Block.domain _) (Block.https _) = true then _ else none) = _
    rw [hsite]
    rfl

end TopBlock.Reordered

/-- Blocks in another order, and the groups of sites in other orders. -/
def Rearranged (blocks blocks' : List TopBlock) : Prop :=
  ∃ mid, blocks.Perm mid ∧ List.Forall₂ TopBlock.Reordered mid blocks'

/-- A fold over blocks that does not see their order. -/
theorem foldlM_rearranged {σ : Type} {f : σ → TopBlock → Option σ} {blocks blocks' : List TopBlock}
    (h : Rearranged blocks blocks') (hblocks : ∀ block ∈ blocks, block.WellFormed)
    (hcomm : ∀ s a b, (f s a).bind (fun s => f s b) = (f s b).bind (fun s => f s a))
    (hsame : ∀ s a b, TopBlock.Reordered a b → a.WellFormed → f s a = f s b) (s : σ) :
    blocks.foldlM f s = blocks'.foldlM f s := by
  obtain ⟨mid, hperm, hmid⟩ := h
  rw [foldlM_perm hperm hcomm]
  have hwf : ∀ block ∈ mid, block.WellFormed := fun block hblock =>
    hblocks block (hperm.mem_iff.mpr hblock)
  clear hperm hblocks
  induction hmid generalizing s with
  | nil => rfl
  | @cons a b l l' hab _ ih =>
    rw [List.foldlM_cons, List.foldlM_cons, hsame s a b hab (hwf a List.mem_cons_self)]
    exact congrArg _ (funext fun s => ih s (fun block hblock => hwf block (List.mem_cons_of_mem a hblock)))

theorem Rearranged.wellFormed {blocks blocks' : List TopBlock} (h : Rearranged blocks blocks')
    (hblocks : ∀ block ∈ blocks, block.WellFormed) : ∀ block ∈ blocks', block.WellFormed := by
  obtain ⟨mid, hperm, hmid⟩ := h
  have hwf : ∀ block ∈ mid, block.WellFormed := fun block hblock =>
    hblocks block (hperm.mem_iff.mpr hblock)
  clear hperm hblocks
  induction hmid with
  | nil => exact fun _ hblock => absurd hblock List.not_mem_nil
  | @cons a b l l' hab _ ih =>
    intro block hblock
    rcases List.mem_cons.mp hblock with rfl | hblock
    · exact hab.wellFormed (hwf a List.mem_cons_self)
    · exact ih (fun block hblock => hwf block (List.mem_cons_of_mem a hblock)) block hblock

/-- The first pass, through the rows of the receivers. -/
theorem receive_view (blocks : List TopBlock) (table : Table ReceiverConfig) :
    (blocks.foldlM (receive X) table).map (fun t k => t.lookup k)
      = blocks.foldlM (fun rows block => (TopBlock.receiver X block).bind
          (offer mapSlots.step rows)) (fun k => table.lookup k) := by
  refine foldlM_view (fun (t : Table ReceiverConfig) k => t.lookup k) (fun table block => ?_)
    blocks table
  unfold receive
  cases TopBlock.receiver X block with
  | none => rfl
  | some row =>
    cases row with
    | none => rfl
    | some row => exact addRow_view table row

/-- Both passes. -/
def passes (X : Geatafile.Crates) (blocks : List TopBlock) : Option Config :=
  (blocks.foldlM (receive X) ∅).bind (fun receivers =>
    (((blocks.filter TopBlock.later).map TopBlock.block).foldlM (addBlock X receivers)
      { sites := ∅, payouts := [] }).toOption)

theorem ofTokens_spell {blocks : List TopBlock} (hblocks : ∀ block ∈ blocks, block.WellFormed)
    {tokens : List Token} (htokens : tokens.map Token.erase = blocks.flatMap TopBlock.spell) :
    (Config.ofTokens X tokens).toOption
      = (passes X blocks).bind (fun config =>
          if !config.sites.entries.isEmpty then some config else none) := by
  rw [← ofTokens_erase, htokens]
  unfold Config.ofTokens passes
  simp only [toOption_bind, collect_spell hblocks le_rfl, toOption_ensure, bind_ite_unit,
    toOption_pure, List.nil_append]
  rw [Option.bind_map, Option.bind_assoc]
  rfl

/-- Rearranged blocks make configurations that look alike. -/
theorem passes_rearranged {blocks blocks' : List TopBlock} (h : Rearranged blocks blocks')
    (hblocks : ∀ block ∈ blocks, block.WellFormed) :
    (passes X blocks).map Config.view = (passes X blocks').map Config.view := by
  have hreceivers : (blocks.foldlM (receive X) ∅).map (fun t k => t.lookup k)
      = (blocks'.foldlM (receive X) ∅).map (fun t k => t.lookup k) := by
    rw [receive_view, receive_view]
    refine foldlM_rearranged h hblocks (fun s a b => ?_) (fun s a b hab _ => ?_) _
    · exact read_comm (offer_comm mapSlots.step_comm) (TopBlock.receiver X) s a b
    · rw [hab.receiver]
  unfold passes
  cases hfirst : blocks.foldlM (receive X) ∅ with
  | none =>
    rw [hfirst] at hreceivers
    rw [Option.map_eq_none_iff.mp hreceivers.symm]
    rfl
  | some receivers =>
    rw [hfirst] at hreceivers
    obtain ⟨receivers', hfirst', hrows⟩ := Option.map_eq_some_iff.mp hreceivers.symm
    rw [hfirst', Option.bind_some, Option.bind_some, foldlM_addBlock_view, foldlM_addBlock_view]
    simp only [part_congr hrows]
    refine foldlM_rearranged h hblocks (fun s a b => ?_) (fun s a b hab ha => ?_) _
    · exact read_comm (offer_comm (either_comm mapSlots.step_comm addPolicy_comm))
        (TopBlock.part X receivers) s a b
    · rw [hab.part ha]

/-- Two outcomes of a parser that mean the same. -/
def SameMeaning (x y : Except ConfigError Config) : Prop :=
  (∃ e e', x = .error e ∧ y = .error e') ∨
    ∃ config config', x = .ok config ∧ y = .ok config' ∧
      (∀ domain, config.sites.lookup domain = config'.sites.lookup domain) ∧
      config.payouts.Perm config'.payouts

theorem isEmpty_entries_congr {β : Type} {t t' : Table β} (h : ∀ k, t.lookup k = t'.lookup k) :
    t.entries.isEmpty = t'.entries.isEmpty := by
  have hempty : ∀ t : Table β, t.entries.isEmpty = true ↔ ∀ k, t.lookup k = none := by
    intro t
    rw [List.isEmpty_iff]
    constructor
    · intro hnil k
      rw [AList.lookup_eq_none, AList.mem_keys, AList.keys, hnil]
      exact List.not_mem_nil
    · intro hnone
      rw [List.eq_nil_iff_forall_not_mem]
      rintro ⟨k, b⟩ hmem
      rw [← Table.lookup_eq_some_iff, hnone] at hmem
      cases hmem
  rw [Bool.eq_iff_iff, hempty, hempty]
  simp only [h]

theorem SameMeaning.of_view {x y : Except ConfigError Config}
    (h : x.toOption.map Config.view = y.toOption.map Config.view) : SameMeaning x y := by
  cases x with
  | error e =>
    cases y with
    | error e' => exact .inl ⟨e, e', rfl, rfl⟩
    | ok config' => cases h
  | ok config =>
    cases y with
    | error e' => cases h
    | ok config' =>
      have hview : config.view = config'.view := Option.some.inj h
      refine .inr ⟨config, config', rfl, rfl, congrFun (congrArg Prod.fst hview), ?_⟩
      exact Multiset.coe_eq_coe.mp (congrArg Prod.snd hview)

/-- The tokens of rearranged blocks mean the same. -/
theorem ofTokens_rearranged {blocks blocks' : List TopBlock}
    (hblocks : ∀ block ∈ blocks, block.WellFormed) (h : Rearranged blocks blocks')
    {tokens tokens' : List Token} (htokens : tokens.map Token.erase = blocks.flatMap TopBlock.spell)
    (htokens' : tokens'.map Token.erase = blocks'.flatMap TopBlock.spell) :
    SameMeaning (Config.ofTokens X tokens) (Config.ofTokens X tokens') := by
  have hpasses := passes_rearranged (X := X) h hblocks
  refine .of_view ?_
  rw [ofTokens_spell hblocks htokens, ofTokens_spell (h.wellFormed hblocks) htokens']
  cases hleft : passes X blocks with
  | none =>
    rw [hleft] at hpasses
    rw [Option.map_eq_none_iff.mp hpasses.symm]
  | some config =>
    rw [hleft] at hpasses
    obtain ⟨config', hright, hview⟩ := Option.map_eq_some_iff.mp hpasses.symm
    -- a file without sites is refused, in any order
    have hempty : config.sites.entries.isEmpty = config'.sites.entries.isEmpty :=
      isEmpty_entries_congr (congrFun (congrArg Prod.fst hview.symm))
    rw [hright, Option.bind_some, Option.bind_some, hempty]
    split
    · exact congrArg some hview.symm
    · rfl

/-- **The order of blocks and directives does not matter.**  The tokens may stand on any lines, and
the texts they come from have to be short enough to be read. -/
theorem order_does_not_matter {blocks blocks' : List TopBlock}
    (hblocks : ∀ block ∈ blocks, block.WellFormed) (h : Rearranged blocks blocks')
    {tokens tokens' : List Token} (htokens : tokens.map Token.erase = blocks.flatMap TopBlock.spell)
    (htokens' : tokens'.map Token.erase = blocks'.flatMap TopBlock.spell) :
    SameMeaning (Config.ofTokens X tokens) (Config.ofTokens X tokens') ∧
      ∀ input input', input.utf8ByteSize ≤ 1024 * 1024 → input'.utf8ByteSize ≤ 1024 * 1024 →
        tokenize X.fromJson input = .ok tokens → tokenize X.fromJson input' = .ok tokens' →
        SameMeaning (Config.parse X input) (Config.parse X input') := by
  have hsame := ofTokens_rearranged (X := X) hblocks h htokens htokens'
  refine ⟨hsame, fun input input' hsize hsize' hlex hlex' => ?_⟩
  have hparse : ∀ input tokens, input.utf8ByteSize ≤ 1024 * 1024 →
      tokenize X.fromJson input = .ok tokens → Config.parse X input = Config.ofTokens X tokens := by
    intro input tokens hsize hlex
    unfold Config.parse
    rw [decide_eq_true hsize, hlex]
    rfl
  rw [hparse input tokens hsize hlex, hparse input' tokens' hsize' hlex']
  exact hsame

/-- Two sites in two orders, and the directives of one of them. -/
theorem order_does_not_matter_sites :
    SameMeaning
        (Config.parse testGeatafile
          "a.com { respond ok rate_limit 10/s burst 20 } b.com { reverse_proxy localhost:3000 }")
        (Config.parse testGeatafile
          "b.com { reverse_proxy localhost:3000 }\na.com { rate_limit 10/s burst 20 respond ok }") ∧
      (Config.parse testGeatafile
        "a.com { respond ok rate_limit 10/s burst 20 } b.com { reverse_proxy localhost:3000 }").isOk
          = true := by
  refine ⟨?_, by decide +kernel⟩
  let body : Group := ⟨.respond, [⟨"ok", false⟩]⟩
  let limit : Group := ⟨.rateLimit, [⟨"10/s", false⟩, ⟨"burst", false⟩, ⟨"20", false⟩]⟩
  let other : TopBlock := .site ⟨"b.com", false⟩ [⟨.reverseProxy, [⟨"localhost:3000", false⟩]⟩]
  have hblocks : ∀ block ∈ [.site ⟨"a.com", false⟩ [body, limit], other],
      TopBlock.WellFormed block := by
    intro block hblock
    rcases List.mem_pair.mp hblock with rfl | rfl
    · refine ⟨by decide, by decide, fun group hgroup => ?_⟩
      rcases List.mem_pair.mp hgroup with rfl | rfl
      · exact .inl ⟨_, rfl⟩
      · rfl
    · refine ⟨by decide, by decide, fun group hgroup => ?_⟩
      rcases List.mem_singleton.mp hgroup with rfl
      rfl
  have hperm : Rearranged [.site ⟨"a.com", false⟩ [body, limit], other]
      [other, .site ⟨"a.com", false⟩ [limit, body]] :=
    ⟨[other, .site ⟨"a.com", false⟩ [body, limit]], .swap _ _ _,
      .cons (.refl other) (.cons (.site _ (.swap _ _ _)) .nil)⟩
  have hlex : (tokenize testGeatafile.fromJson
      "a.com { respond ok rate_limit 10/s burst 20 } b.com { reverse_proxy localhost:3000 }").toOption.map
        (List.map Token.erase)
      = some ([.site ⟨"a.com", false⟩ [body, limit], other].flatMap TopBlock.spell) := by
    decide +kernel
  have hlex' : (tokenize testGeatafile.fromJson
      "b.com { reverse_proxy localhost:3000 }\na.com { rate_limit 10/s burst 20 respond ok }").toOption.map
        (List.map Token.erase)
      = some ([other, .site ⟨"a.com", false⟩ [limit, body]].flatMap TopBlock.spell) := by
    decide +kernel
  obtain ⟨tokens, hok, htokens⟩ := Option.map_eq_some_iff.mp hlex
  obtain ⟨tokens', hok', htokens'⟩ := Option.map_eq_some_iff.mp hlex'
  exact (order_does_not_matter hblocks hperm htokens htokens').2 _ _ (by decide +kernel)
    (by decide +kernel) (toOption_eq_some.mp hok) (toOption_eq_some.mp hok')

end Geata.Geatafile
