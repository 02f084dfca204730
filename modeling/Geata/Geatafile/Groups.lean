import Mathlib.Data.Finset.Lattice.Lemmas
import Geata.Lib.Fold
import Geata.Geatafile.Site

namespace Geata.Geatafile

open Geata.Lib Geata.Lightning Geata.Payments
open Geata.Proxy (Limit RateLimiter Upstream Handler)

/-!
# The order of directives

Nothing separates the groups of a site but the names they start with.  When every group has the
arguments its directive takes, and the open-ended ones quote what could be read as a name, the loop
takes the groups apart where they were put together (`directives_spell`).  Each group then fills a
slot of its own (`siteSlots`), so the groups can stand in any order (`parseDirectives_perm`).
-/

variable {X : Geatafile.Crates}

/-! ### Groups as they are written -/

/-- A word of a file. -/
structure Word where
  text : String
  quoted : Bool
  deriving DecidableEq

/-- The token of a word, without its line. -/
def Word.token (word : Word) : Token := ⟨0, .text word.text, word.quoted⟩

def Directive.name : Directive → String
  | .reverseProxy => "reverse_proxy"
  | .respond => "respond"
  | .rateLimit => "rate_limit"
  | .pay => "pay"
  | .lightningPay => "lightning_pay"
  | .lightningHeaders => "lightning_headers"
  | .lightningProtocols => "lightning_protocols"
  | .lightningOrigin => "lightning_origin"
  | .maxBodyBytes => "max_body_bytes"
  | .requestTimeout => "request_timeout"
  | .ipv6Prefix => "ipv6_prefix"
  | .paymentVerifyLimit => "payment_verify_limit"
  | .maxInflight => "max_inflight"

@[simp] theorem ofText_name (directive : Directive) :
    Directive.ofText directive.name = some directive := by
  cases directive <;> rfl

/-- The names that end an open list are those of the directives. -/
theorem siteDirective_iff {text : String} :
    siteDirective (some text) = true ↔ ∃ directive : Directive, text = directive.name := by
  constructor
  · intro h
    simp only [siteDirective, Option.any_some, List.contains_eq_mem, decide_eq_true_eq,
      List.mem_cons, List.not_mem_nil, or_false] at h
    rcases h with h | h | h | h | h | h | h | h | h | h | h | h | h
    exacts [⟨.reverseProxy, h⟩, ⟨.respond, h⟩, ⟨.rateLimit, h⟩, ⟨.pay, h⟩, ⟨.lightningPay, h⟩,
      ⟨.lightningHeaders, h⟩, ⟨.lightningProtocols, h⟩, ⟨.lightningOrigin, h⟩, ⟨.maxBodyBytes, h⟩,
      ⟨.requestTimeout, h⟩, ⟨.ipv6Prefix, h⟩, ⟨.paymentVerifyLimit, h⟩, ⟨.maxInflight, h⟩]
  · rintro ⟨directive, rfl⟩
    cases directive <;> rfl

/-- A word that is not read as the name of a directive. -/
def Word.Plain (word : Word) : Prop :=
  word.quoted = true ∨ ∀ directive : Directive, word.text ≠ directive.name

theorem Word.Plain.continues {word : Word} (h : word.Plain) : word.token.continues = true := by
  unfold Token.continues
  rw [Bool.or_eq_true, Bool.not_eq_true']
  refine h.imp id (fun hne => ?_)
  rw [← Bool.not_eq_true]
  intro hname
  obtain ⟨directive, heq⟩ := siteDirective_iff.mp hname
  exact hne directive heq

/-- A directive with its arguments. -/
structure Group where
  directive : Directive
  args : List Word

namespace Group

/-- The name of a group, which is not quoted. -/
def head (group : Group) : Token := ⟨0, .text group.directive.name, false⟩

def spell (group : Group) : List Token := group.head :: group.args.map Word.token

/-- The group has the arguments its directive takes. -/
def WellFormed (group : Group) : Prop :=
  match group.directive with
  | .reverseProxy | .maxInflight | .maxBodyBytes | .requestTimeout | .ipv6Prefix
  | .lightningOrigin => group.args.length = 1
  | .rateLimit | .paymentVerifyLimit | .pay | .lightningPay => group.args.length = 3
  | .lightningHeaders | .lightningProtocols => ∀ word ∈ group.args, word.Plain
  | .respond => (∃ body, group.args = [body]) ∨
      ∃ body status, group.args = [body, status] ∧ status.Plain

@[simp] theorem head_text (group : Group) : group.head.text = some group.directive.name := rfl

@[simp] theorem length_spell (group : Group) : group.spell.length = group.args.length + 1 := by
  rw [spell, List.length_cons, List.length_map]

theorem head_stops (group : Group) : group.head.continues = false := by
  have hname : siteDirective group.head.text = true := siteDirective_iff.mpr ⟨_, rfl⟩
  unfold Token.continues
  rw [hname]
  rfl

end Group

/-- The tokens after a group: none, or those of another group. -/
def Stops (rest : List Token) : Prop := rest.head?.any Token.continues = false

theorem stops_flatMap (groups : List Group) : Stops (groups.flatMap Group.spell) := by
  cases groups with
  | nil => rfl
  | cons group groups => exact group.head_stops

theorem Stops.takeWhile {rest : List Token} (h : Stops rest) :
    rest.takeWhile Token.continues = [] := by
  cases rest with
  | nil => rfl
  | cons token rest =>
    have hstop : token.continues = false := h
    rw [List.takeWhile_cons, hstop]
    rfl

/-- **A group ends where the next one starts.** -/
theorem groupLength_spell {group : Group} (hgroup : group.WellFormed) {rest : List Token}
    (hrest : Stops rest) :
    groupLength group.head (group.args.map Word.token ++ rest) = group.spell.length := by
  have hlen := group.length_spell
  obtain ⟨directive, args⟩ := group
  -- the open-ended lists take every argument and stop at the next name
  have hopen : (∀ word ∈ args, word.Plain) →
      1 + ((args.map Word.token ++ rest).takeWhile Token.continues).length = args.length + 1 := by
    intro hplain
    have hall : ∀ token ∈ args.map Word.token, token.continues = true := by
      intro token htoken
      obtain ⟨word, hword, rfl⟩ := List.mem_map.mp htoken
      exact (hplain word hword).continues
    rw [List.takeWhile_append_of_pos hall, hrest.takeWhile, List.append_nil, List.length_map]
    omega
  rw [hlen]
  unfold groupLength
  rw [Group.head_text, Option.bind_some, ofText_name]
  cases directive
  case lightningHeaders => exact hopen hgroup
  case lightningProtocols => exact hopen hgroup
  case respond =>
    obtain ⟨body, rfl⟩ | ⟨body, status, rfl, hstatus⟩ :
      (∃ body, args = [body]) ∨ ∃ body status, args = [body, status] ∧ status.Plain := hgroup
    · cases rest with
      | nil => rfl
      | cons token rest =>
        have hstop : token.continues = false := hrest
        simp [hstop]
    · simp [hstatus.continues]
  all_goals
    have hargs := hgroup
    simp only [Group.WellFormed] at hargs
    simp only [hargs]

/-- The loop takes groups apart as they were put together. -/
theorem directives_spell {groups : List Group} (hgroups : ∀ group ∈ groups, group.WellFormed)
    {fuel : ℕ} (hfuel : (groups.flatMap Group.spell).length ≤ fuel) (state : SiteBlock) :
    (directives X fuel state (groups.flatMap Group.spell)).toOption
      = groups.foldlM (fun state group =>
          (state.directive X 0 group.spell group.directive).toOption) state := by
  induction groups generalizing fuel state with
  | nil => cases fuel <;> rfl
  | cons group groups ih =>
    have hgroup := hgroups group List.mem_cons_self
    have hlength := groupLength_spell hgroup (stops_flatMap groups)
    rw [List.flatMap_cons] at hfuel
    have hcons : group.spell ++ groups.flatMap Group.spell
        = group.head :: (group.args.map Word.token ++ groups.flatMap Group.spell) := rfl
    cases fuel with
    | zero =>
      rw [List.length_append, group.length_spell] at hfuel
      omega
    | succ fuel =>
      rw [List.flatMap_cons, List.foldlM_cons, hcons]
      simp only [directives, toOption_bind, toOption_context, Group.head_text, Option.bind_some,
        ofText_name, hlength]
      rw [← hcons, List.take_left, List.drop_left]
      refine congrArg _ (funext fun next => ?_)
      refine ih (fun g hg => hgroups g (List.mem_cons_of_mem group hg)) ?_ next
      rw [List.length_append, group.length_spell] at hfuel
      omega

/-! ### What groups set -/

/-- What a group sets. -/
inductive Setting where
  | handler (handler : Handler)
  | rateLimit (limit : Limit)
  | payment (policy : PaymentPolicy)
  | lightning (price unit receiver : String)
  | headers (headers : List String)
  | origin (origin : String)
  | protocols (protocols : Protocols)
  | maxInflight (max : UInt32)
  | maxBodyBytes (bytes : Option UInt64)
  | requestTimeout (seconds : Option UInt64)
  | ipv6Prefix (bits : UInt8)
  | paymentLimit (limit : Limit)

namespace Setting

/-- The directive a setting comes from; the two handlers share a slot. -/
def slot : Setting → Directive
  | .handler _ => .reverseProxy
  | .rateLimit _ => .rateLimit
  | .payment _ => .pay
  | .lightning _ _ _ => .lightningPay
  | .headers _ => .lightningHeaders
  | .origin _ => .lightningOrigin
  | .protocols _ => .lightningProtocols
  | .maxInflight _ => .maxInflight
  | .maxBodyBytes _ => .maxBodyBytes
  | .requestTimeout _ => .requestTimeout
  | .ipv6Prefix _ => .ipv6Prefix
  | .paymentLimit _ => .paymentVerifyLimit

/-- The state with a setting in its field. -/
def write (state : SiteBlock) : Setting → SiteBlock
  | .handler value => { state with handler := some value }
  | .rateLimit limit => { state with rateLimit := some limit }
  | .payment policy => { state with payment := some policy }
  | .lightning price unit receiver => { state with lightning := some (price, unit, receiver, 0) }
  | .headers names => { state with lightningHeaders := some names }
  | .origin url => { state with lightningOrigin := some url }
  | .protocols value => { state with lightningProtocols := some value }
  | .maxInflight max => { state with maxInflight := some max }
  | .maxBodyBytes bytes => { state with controls := { state.controls with maxBodyBytes := bytes } }
  | .requestTimeout seconds =>
    { state with controls := { state.controls with requestTimeout := seconds } }
  | .ipv6Prefix bits => { state with controls := { state.controls with ipv6Prefix := bits } }
  | .paymentLimit limit => { state with controls := { state.controls with paymentLimit := limit } }

/-- The names that are kept among the seen controls. -/
def seen (setting : Setting) : Finset String :=
  match setting with
  | .maxBodyBytes _ | .requestTimeout _ | .ipv6Prefix _ | .rateLimit _ | .paymentLimit _ =>
    {setting.slot.name}
  | _ => ∅

def put (state : SiteBlock) (setting : Setting) : SiteBlock :=
  { write state setting with seenControls := setting.seen ∪ state.seenControls }

end Setting

/-- The slot of a directive is filled. -/
def SiteBlock.filled (state : SiteBlock) : Directive → Bool
  | .reverseProxy => state.handler.isSome
  | .respond => false
  | .pay => state.payment.isSome
  | .lightningPay => state.lightning.isSome
  | .lightningHeaders => state.lightningHeaders.isSome
  | .lightningOrigin => state.lightningOrigin.isSome
  | .lightningProtocols => state.lightningProtocols.isSome
  | .maxInflight => state.maxInflight.isSome
  | .maxBodyBytes => decide ("max_body_bytes" ∈ state.seenControls)
  | .requestTimeout => decide ("request_timeout" ∈ state.seenControls)
  | .ipv6Prefix => decide ("ipv6_prefix" ∈ state.seenControls)
  | .rateLimit => decide ("rate_limit" ∈ state.seenControls)
  | .paymentVerifyLimit => decide ("payment_verify_limit" ∈ state.seenControls)

theorem write_comm (state : SiteBlock) (a b : Setting) (h : a.slot ≠ b.slot) :
    Setting.write (Setting.write state a) b = Setting.write (Setting.write state b) a := by
  cases a <;> cases b <;> first | rfl | exact absurd rfl h

/-- Fields and seen controls are kept apart. -/
theorem put_put (state : SiteBlock) (a b : Setting) :
    Setting.put (Setting.put state a) b =
      { Setting.write (Setting.write state a) b with
        seenControls := b.seen ∪ (a.seen ∪ state.seenControls) } := by
  unfold Setting.put
  cases b <;> rfl

/-- A site block as a state with slots. -/
def siteSlots : Slots SiteBlock Setting Directive where
  slot := Setting.slot
  filled := SiteBlock.filled
  put := Setting.put
  filled_put := by
    intro state setting directive
    cases setting <;> cases directive <;>
      simp [SiteBlock.filled, Setting.put, Setting.write, Setting.seen, Setting.slot,
        Directive.name]
  put_comm := by
    intro state a b h
    rw [put_put, put_put, write_comm state a b h, Finset.union_left_comm]

/-- What a group sets, where its arguments can be read. -/
def Group.setting (X : Geatafile.Crates) (group : Group) : Option Setting :=
  let args := group.spell
  match group.directive with
  | .reverseProxy => (parseHandler X .reverseProxy 0 args).toOption.map Setting.handler
  | .respond => (parseHandler X .respond 0 args).toOption.map Setting.handler
  | .rateLimit => (parseLimit 0 args).toOption.map Setting.rateLimit
  | .paymentVerifyLimit => (parseLimit 0 args).toOption.map Setting.paymentLimit
  | .pay =>
    if args.length == 4 then
      (PaymentPolicy.parse X ((argument args 1).getD "") ((argument args 2).getD "")
        ((argument args 3).getD "")).toOption.map Setting.payment
    else none
  | .lightningPay =>
    if args.length == 4 then
      some (.lightning ((argument args 1).getD "") ((argument args 2).getD "")
        ((argument args 3).getD ""))
    else none
  | .lightningHeaders => (parseHeaders 0 args).toOption.map Setting.headers
  | .lightningProtocols => (Protocols.parse (arguments args)).toOption.map Setting.protocols
  | .lightningOrigin =>
    if args.length == 2 then some (.origin ((argument args 1).getD "")) else none
  | .maxInflight => ((argument args 1).bind parseInflight).map Setting.maxInflight
  | .maxBodyBytes =>
    (argument args 1).bind (fun value => (parseControl 0 value).toOption.map Setting.maxBodyBytes)
  | .requestTimeout =>
    (argument args 1).bind (fun value => (parseControl 0 value).toOption.map Setting.requestTimeout)
  | .ipv6Prefix =>
    (argument args 1).bind (fun value => (parsePrefix value).map Setting.ipv6Prefix)

/-- A directive that is refused when its slot is filled, then read and put there. -/
theorem fills {α : Type} {state : SiteBlock} {free : Bool} {next : α → SiteBlock}
    (make : α → Setting) (hfree : ∀ a, state.filled (make a).slot = !free)
    (hput : ∀ a, Setting.put state (make a) = next a) (read : Option α) :
    (if free then read.bind (fun a => some (next a)) else none)
      = (read.map make).bind (siteSlots.step state) := by
  cases read with
  | none => simp
  | some a =>
    show _ = if state.filled (make a).slot = true then none else some (Setting.put state (make a))
    rw [hfree, hput]
    cases free <;> rfl

theorem isSome_eq_not_isNone {α : Type} (o : Option α) : o.isSome = !o.isNone := by
  cases o <;> rfl

/-- What is put where nothing is kept among the seen controls. -/
theorem put_plain {state : SiteBlock} {setting : Setting} (h : setting.seen = ∅) :
    Setting.put state setting
      = { Setting.write state setting with seenControls := state.seenControls } := by
  rw [Setting.put, h, Finset.empty_union]

/-- A control is kept among them. -/
theorem put_control {state : SiteBlock} {setting : Setting} {name : String}
    (h : setting.seen = {name}) :
    Setting.put state setting =
      { Setting.write state setting with seenControls := insert name state.seenControls } := by
  rw [Setting.put, h, Finset.insert_eq]

theorem handle_eq (state : SiteBlock) (directive : Directive) (args : List Token) :
    (SiteBlock.directive.handle X state 0 args directive).toOption
      = ((parseHandler X directive 0 args).toOption.map Setting.handler).bind
          (siteSlots.step state) := by
  unfold SiteBlock.directive.handle
  simp only [toOption_bind, toOption_ensure, bind_ite_unit, toOption_pure]
  exact fills Setting.handler (fun _ => isSome_eq_not_isNone state.handler)
    (fun _ => put_plain rfl) _

theorem control_eq {α : Type} {name : String} (make : α → Setting) (state : SiteBlock)
    (args : List Token) {set : RequestControls → String → Except ConfigError RequestControls}
    (read : String → Option α) (write : RequestControls → α → RequestControls)
    (hset : ∀ controls value, (set controls value).toOption = (read value).map (write controls))
    (hfilled : ∀ a, state.filled (make a).slot = decide (name ∈ state.seenControls))
    (hput : ∀ a, Setting.put state (make a) =
      { state with
        controls := write state.controls a
        seenControls := insert name state.seenControls }) :
    (state.control name 0 args set).toOption
      = ((argument args 1).bind (fun value => (read value).map make)).bind
          (siteSlots.step state) := by
  have hmap : (argument args 1).bind (fun value => (read value).map make)
      = ((argument args 1).bind read).map make := by
    cases argument args 1 <;> rfl
  have hfree : ∀ a, state.filled (make a).slot = !decide (name ∉ state.seenControls) := by
    intro a
    rw [hfilled, decide_not, Bool.not_not]
  rw [hmap, ← fills make hfree hput]
  unfold SiteBlock.control
  simp only [toOption_bind, toOption_ensure, bind_ite_unit, toOption_context, toOption_pure, hset]
  cases argument args 1 with
  | none => rfl
  | some value =>
    simp only [Option.bind_some]
    cases read value <;> rfl

theorem limit_eq {name : String} (make : Limit → Setting) (state : SiteBlock) (args : List Token)
    {set : SiteBlock → Limit → SiteBlock}
    (hfilled : ∀ a, state.filled (make a).slot = decide (name ∈ state.seenControls))
    (hput : ∀ a, Setting.put state (make a) =
      set { state with seenControls := insert name state.seenControls } a) :
    (state.limit name 0 args set).toOption
      = ((parseLimit 0 args).toOption.map make).bind (siteSlots.step state) := by
  have hfree : ∀ a, state.filled (make a).slot = !decide (name ∉ state.seenControls) := by
    intro a
    rw [hfilled, decide_not, Bool.not_not]
  rw [← fills make hfree hput]
  unfold SiteBlock.limit
  simp only [toOption_bind, toOption_ensure, bind_ite_unit, toOption_pure]

/-- **A group fills its slot.** -/
theorem directive_eq (state : SiteBlock) (group : Group) :
    (state.directive X 0 group.spell group.directive).toOption
      = (group.setting X).bind (siteSlots.step state) := by
  unfold Group.setting
  cases group.directive with
  | reverseProxy => exact handle_eq state .reverseProxy group.spell
  | respond => exact handle_eq state .respond group.spell
  | rateLimit =>
    simp only [SiteBlock.directive]
    exact limit_eq Setting.rateLimit state group.spell (fun _ => rfl) (fun _ => put_control rfl)
  | paymentVerifyLimit =>
    simp only [SiteBlock.directive]
    exact limit_eq Setting.paymentLimit state group.spell (fun _ => rfl) (fun _ => put_control rfl)
  | maxBodyBytes =>
    simp only [SiteBlock.directive]
    refine control_eq Setting.maxBodyBytes state group.spell _ _ (fun _ _ => toOption_map ..)
      (fun _ => rfl) (fun _ => ?_)
    exact put_control rfl
  | requestTimeout =>
    simp only [SiteBlock.directive]
    refine control_eq Setting.requestTimeout state group.spell _ _ (fun _ _ => toOption_map ..)
      (fun _ => rfl) (fun _ => ?_)
    exact put_control rfl
  | ipv6Prefix =>
    simp only [SiteBlock.directive]
    refine control_eq Setting.ipv6Prefix state group.spell parsePrefix
      (fun controls bits => { controls with ipv6Prefix := bits }) (fun _ _ => ?_) (fun _ => rfl)
      (fun _ => ?_)
    · rw [toOption_map, toOption_context]
    · exact put_control rfl
  | pay =>
    simp only [SiteBlock.directive, toOption_bind, toOption_ensure, bind_ite_unit,
      toOption_mapError, toOption_pure]
    cases group.spell.length == 4 with
    | false => simp
    | true =>
      exact fills Setting.payment (fun _ => isSome_eq_not_isNone state.payment)
        (fun _ => put_plain rfl) _
  | lightningPay =>
    simp only [SiteBlock.directive, toOption_bind, toOption_ensure, bind_ite_unit, toOption_pure]
    cases group.spell.length == 4 with
    | false => simp
    | true =>
      exact fills (fun p => Setting.lightning p.1 p.2.1 p.2.2)
        (fun _ => isSome_eq_not_isNone state.lightning) (fun _ => put_plain rfl) (some (_, _, _))
  | lightningOrigin =>
    simp only [SiteBlock.directive, toOption_bind, toOption_ensure, bind_ite_unit, toOption_pure]
    cases group.spell.length == 2 with
    | false => simp
    | true =>
      exact fills Setting.origin (fun _ => isSome_eq_not_isNone state.lightningOrigin)
        (fun _ => put_plain rfl) (some _)
  | lightningProtocols =>
    simp only [SiteBlock.directive, toOption_bind, toOption_ensure, bind_ite_unit,
      toOption_mapError, toOption_pure]
    exact fills Setting.protocols (fun _ => isSome_eq_not_isNone state.lightningProtocols)
      (fun _ => put_plain rfl) _
  | lightningHeaders =>
    simp only [SiteBlock.directive, toOption_bind, toOption_ensure, bind_ite_unit, toOption_pure]
    exact fills Setting.headers (fun _ => isSome_eq_not_isNone state.lightningHeaders)
      (fun _ => put_plain rfl) _
  | maxInflight =>
    simp only [SiteBlock.directive, toOption_bind, toOption_ensure, bind_ite_unit,
      toOption_context, toOption_pure]
    exact fills Setting.maxInflight (fun _ => isSome_eq_not_isNone state.maxInflight)
      (fun _ => put_plain rfl) _

/-- **The order of the groups does not matter.** -/
theorem parseDirectives_perm {groups groups' : List Group} (hperm : groups.Perm groups')
    (hgroups : ∀ group ∈ groups, group.WellFormed) (receivers : Table ReceiverConfig)
    (domain : String) (https : Bool) :
    (parseDirectives X (groups.flatMap Group.spell) 0 receivers domain https).toOption
      = (parseDirectives X (groups'.flatMap Group.spell) 0 receivers domain https).toOption := by
  have hgroups' : ∀ group ∈ groups', group.WellFormed := fun group hgroup =>
    hgroups group (hperm.mem_iff.mpr hgroup)
  unfold parseDirectives
  simp only [toOption_bind, directives_spell hgroups le_rfl, directives_spell hgroups' le_rfl,
    directive_eq]
  rw [foldlM_perm hperm (read_comm siteSlots.step_comm (Group.setting X))]

end Geata.Geatafile
