import Geata.Lib.Fold
import Geata.Geatafile.Parse

namespace Geata.Geatafile

open Geata.Lib Geata.Lightning Geata.Payments
open Geata.Proxy (Limit RateLimiter Upstream Handler)

/-!
# Line numbers only matter in errors

The tokens of a file carry their lines for the sake of errors.  `Token.erase` forgets them, and
every parser, run on tokens without lines, has the same outcome; `ofTokens_erase` is the result for
whole files.
-/

variable {X : Geatafile.Crates}

/-- The token without its line. -/
def Token.erase (token : Token) : Token := { token with line := 0 }

section

variable (token : Token) (args : List Token)

@[simp] theorem erase_text : token.erase.text = token.text := rfl

@[simp] theorem erase_quoted : token.erase.quoted = token.quoted := rfl

@[simp] theorem erase_kind : token.erase.kind = token.kind := rfl

@[simp] theorem erase_line : token.erase.line = 0 := rfl

@[simp] theorem erase_continues : token.erase.continues = token.continues := rfl

@[simp] theorem argument_erase (i : ℕ) :
    argument (args.map Token.erase) i = argument args i := by
  unfold argument
  rw [List.getElem?_map]
  cases args[i]? <;> rfl

@[simp] theorem filterMap_text_erase :
    (args.map Token.erase).filterMap Token.text = args.filterMap Token.text := by
  rw [List.filterMap_map]
  rfl

@[simp] theorem arguments_erase : arguments (args.map Token.erase) = arguments args := by
  unfold arguments
  rw [← List.map_tail, filterMap_text_erase]

@[simp] theorem any_quoted_erase :
    (args.map Token.erase).any Token.quoted = args.any Token.quoted := by
  rw [List.any_map]
  rfl

/-- How many tokens a group takes does not depend on their lines. -/
theorem groupLength_erase (rest : List Token) :
    groupLength token.erase (rest.map Token.erase) = groupLength token rest := by
  unfold groupLength
  have htake : ((rest.map Token.erase).takeWhile Token.continues).length
      = (rest.takeWhile Token.continues).length := by
    rw [List.takeWhile_map, List.length_map]
    rfl
  have hstatus : (rest.map Token.erase)[1]?.any Token.continues = rest[1]?.any Token.continues := by
    rw [List.getElem?_map]
    cases rest[1]? <;> rfl
  rw [htake, hstatus, erase_text]

end

/-! ### Directives -/

section

variable (line : ℕ) (args : List Token)

theorem parseHeaders_erase :
    (parseHeaders 0 (args.map Token.erase)).toOption = (parseHeaders line args).toOption := by
  have hany : (args.map Token.erase).tail.any (fun token => token.text == some "none")
      = args.tail.any (fun token => token.text == some "none") := by
    rw [← List.map_tail, List.any_map]
    rfl
  unfold parseHeaders
  simp only [toOption_bind, toOption_ensure, bind_ite_unit, List.length_map, hany, argument_erase,
    arguments_erase]

theorem parseLimit_erase :
    (parseLimit 0 (args.map Token.erase)).toOption = (parseLimit line args).toOption := by
  unfold parseLimit
  simp only [toOption_bind, toOption_ensure, bind_ite_unit, toOption_context, List.length_map, argument_erase,
    toOption_pure]

theorem parseControl_erase (value : String) :
    (parseControl 0 value).toOption = (parseControl line value).toOption := by
  unfold parseControl
  split
  · rfl
  · simp only [toOption_context]

theorem parseResponse_erase :
    (parseResponse (args.map Token.erase) 0).toOption = (parseResponse args line).toOption := by
  have hsplit : splitResponse (args.map Token.erase) = splitResponse args := by
    unfold splitResponse
    simp only [List.length_map, argument_erase, any_quoted_erase]
  unfold parseResponse
  rw [hsplit]
  simp only [toOption_bind, toOption_ensure, bind_ite_unit, toOption_context, List.length_map,
    List.isEmpty_map, toOption_pure]

theorem parseHandler_erase (directive : Directive) :
    (parseHandler X directive 0 (args.map Token.erase)).toOption
      = (parseHandler X directive line args).toOption := by
  unfold parseHandler
  simp only [List.length_map, argument_erase]
  split
  · simp only [toOption_mapError]
  split
  · rw [← List.map_tail, parseResponse_erase line args.tail]
  · rfl

end

/-- The state of a site block without the line of `lightning_pay`. -/
def SiteBlock.erase (state : SiteBlock) : SiteBlock :=
  { state with lightning := state.lightning.map (fun x => (x.1, x.2.1, x.2.2.1, 0)) }

namespace SiteBlock

variable (state : SiteBlock) (line : ℕ) (args : List Token)

theorem control_erase (name : String)
    {set set' : RequestControls → String → Except ConfigError RequestControls}
    (hset : ∀ controls value, (set' controls value).toOption = (set controls value).toOption) :
    (state.erase.control name 0 (args.map Token.erase) set').toOption
      = (state.control name line args set).toOption.map SiteBlock.erase := by
  unfold control
  simp only [toOption_bind, toOption_ensure, bind_ite_unit, toOption_context, argument_erase, hset,
    toOption_pure]
  show (if decide (name ∉ state.seenControls) = true then _ else none) = _
  split
  · cases argument args 1 with
    | none => rfl
    | some value =>
      simp only [Option.bind_some]
      show Option.bind (set state.controls value).toOption _ = _
      cases (set state.controls value).toOption <;> rfl
  · rfl

theorem limit_erase (name : String) {set : SiteBlock → Limit → SiteBlock}
    (hset : ∀ s limit, (set s limit).erase = set s.erase limit) :
    (state.erase.limit name 0 (args.map Token.erase) set).toOption
      = (state.limit name line args set).toOption.map SiteBlock.erase := by
  unfold limit
  simp only [toOption_bind, toOption_ensure, bind_ite_unit, parseLimit_erase line args, toOption_pure]
  show (if decide (name ∉ state.seenControls) = true then _ else none) = _
  split
  · cases (parseLimit line args).toOption with
    | none => rfl
    | some limit =>
      exact congrArg some (hset { state with seenControls := insert name state.seenControls } limit).symm
  · rfl

theorem handle_erase (name : Directive) :
    (SiteBlock.directive.handle X state.erase 0 (args.map Token.erase) name).toOption
      = (SiteBlock.directive.handle X state line args name).toOption.map SiteBlock.erase := by
  unfold SiteBlock.directive.handle
  simp only [toOption_bind, toOption_ensure, bind_ite_unit, parseHandler_erase line args, toOption_pure]
  show (if state.handler.isNone = true then _ else none) = _
  split
  · cases (parseHandler X name line args).toOption <;> rfl
  · rfl

/-- One group. -/
theorem directive_erase (name : Directive) :
    (state.erase.directive X 0 (args.map Token.erase) name).toOption
      = (state.directive X line args name).toOption.map SiteBlock.erase := by
  cases name with
  | reverseProxy => exact handle_erase state line args .reverseProxy
  | respond => exact handle_erase state line args .respond
  | maxBodyBytes =>
    simp only [SiteBlock.directive]
    refine control_erase state line args _ (fun controls value => ?_)
    rw [toOption_map, toOption_map, parseControl_erase line]
  | requestTimeout =>
    simp only [SiteBlock.directive]
    refine control_erase state line args _ (fun controls value => ?_)
    rw [toOption_map, toOption_map, parseControl_erase line]
  | ipv6Prefix =>
    simp only [SiteBlock.directive]
    refine control_erase state line args _ (fun controls value => ?_)
    simp only [toOption_map, toOption_context]
  | rateLimit =>
    simp only [SiteBlock.directive]
    exact limit_erase state line args _ (fun _ _ => rfl)
  | paymentVerifyLimit =>
    simp only [SiteBlock.directive]
    exact limit_erase state line args _ (fun _ _ => rfl)
  | lightningPay =>
    have hnone : state.erase.lightning.isNone = state.lightning.isNone := Option.isNone_map ..
    simp only [SiteBlock.directive, toOption_bind, toOption_ensure, bind_ite_unit, toOption_pure, List.length_map,
      argument_erase, hnone]
    split
    · split <;> rfl
    · rfl
  | lightningProtocols =>
    simp only [SiteBlock.directive, toOption_bind, toOption_ensure, bind_ite_unit, toOption_mapError,
      toOption_pure, arguments_erase]
    show (if state.lightningProtocols.isNone = true then _ else none) = _
    split
    · cases (Protocols.parse (arguments args)).toOption <;> rfl
    · rfl
  | lightningHeaders =>
    simp only [SiteBlock.directive, toOption_bind, toOption_ensure, bind_ite_unit, toOption_pure,
      parseHeaders_erase line args]
    show (if state.lightningHeaders.isNone = true then _ else none) = _
    split
    · cases (parseHeaders line args).toOption <;> rfl
    · rfl
  | lightningOrigin =>
    simp only [SiteBlock.directive, toOption_bind, toOption_ensure, bind_ite_unit, toOption_pure, List.length_map,
      argument_erase]
    show (if state.lightningOrigin.isNone = true then _ else none) = _
    split
    · split <;> rfl
    · rfl
  | pay =>
    simp only [SiteBlock.directive, toOption_bind, toOption_ensure, bind_ite_unit, toOption_mapError,
      toOption_pure, List.length_map, argument_erase]
    show (if state.payment.isNone = true then _ else none) = _
    split
    · split
      · cases (PaymentPolicy.parse X _ _ _).toOption <;> rfl
      · rfl
    · rfl
  | maxInflight =>
    simp only [SiteBlock.directive, toOption_bind, toOption_ensure, bind_ite_unit, toOption_context,
      toOption_pure, argument_erase]
    show (if state.maxInflight.isNone = true then _ else none) = _
    split
    · cases (argument args 1).bind parseInflight <;> rfl
    · rfl

end SiteBlock

/-- The loop over the directives. -/
theorem directives_erase (fuel : ℕ) (state : SiteBlock) (tokens : List Token) :
    (directives X fuel state.erase (tokens.map Token.erase)).toOption
      = (directives X fuel state tokens).toOption.map SiteBlock.erase := by
  induction fuel generalizing state tokens with
  | zero => rfl
  | succ fuel ih =>
    cases tokens with
    | nil => rfl
    | cons token rest =>
      rw [List.map_cons]
      simp only [directives, toOption_bind, toOption_context, groupLength_erase, erase_text,
        erase_line]
      rw [← List.map_cons, ← List.map_take, ← List.map_drop]
      cases token.text.bind Directive.ofText with
      | none => rfl
      | some name =>
        simp only [Option.bind_some, SiteBlock.directive_erase state token.line]
        cases (state.directive X token.line _ name).toOption with
        | none => rfl
        | some next => exact ih next _

/-! ### Sites and payouts -/

section

variable (receivers : Table ReceiverConfig) (line : ℕ) (domain : String) (https : Bool)

theorem policy_erase (state : SiteBlock) :
    (state.erase.policy X 0 receivers domain https).toOption
      = (state.policy X line receivers domain https).toOption := by
  unfold SiteBlock.policy SiteBlock.erase
  cases state.lightning with
  | none => simp only [Option.map_none, toOption_bind, toOption_ensure, toOption_pure]
  | some x =>
    obtain ⟨price, unit, name, directiveLine⟩ := x
    simp only [Option.map_some, toOption_bind, toOption_context, toOption_mapError, toOption_pure]

theorem finish_erase (state : SiteBlock) :
    (state.erase.finish X 0 receivers domain https).toOption
      = (state.finish X line receivers domain https).toOption := by
  unfold SiteBlock.finish
  simp only [toOption_bind, toOption_context, policy_erase receivers line, toOption_pure]
  rfl

theorem parseDirectives_erase (tokens : List Token) :
    (parseDirectives X (tokens.map Token.erase) 0 receivers domain https).toOption
      = (parseDirectives X tokens line receivers domain https).toOption := by
  unfold parseDirectives
  have hloop := directives_erase (X := X) tokens.length {} tokens
  have hinit : SiteBlock.erase {} = {} := rfl
  rw [hinit] at hloop
  simp only [toOption_bind, List.length_map, hloop]
  cases (directives X tokens.length {} tokens).toOption with
  | none => rfl
  | some state => exact finish_erase receivers line domain https state

end

/-- The block without its lines. -/
def Block.erase (block : Block) : Block :=
  { block with body := block.body.map Token.erase, line := 0 }

section

variable (receivers : Table ReceiverConfig) (config : Config) (block : Block)

@[simp] theorem erase_texts : block.erase.texts = block.texts := filterMap_text_erase block.body

theorem parseSite_erase (domain : String) (https : Bool) :
    (parseSite X receivers block.erase domain https).toOption
      = (parseSite X receivers block domain https).toOption := by
  have hcheck : ∀ policy, (checkPolicy X policy 0 domain https).toOption
      = (checkPolicy X policy block.line domain https).toOption := by
    intro policy
    cases policy with
    | none => rfl
    | some policy => simp only [checkPolicy, toOption_mapError]
  have hparse := parseDirectives_erase (X := X) receivers block.line domain https block.body
  unfold parseSite
  simp only [toOption_bind, toOption_pure]
  show Option.bind (parseDirectives X (block.body.map Token.erase) 0 receivers domain https).toOption
    _ = _
  rw [hparse]
  cases (parseDirectives X block.body block.line receivers domain https).toOption with
  | none => rfl
  | some parsed =>
    simp only [Option.bind_some]
    rw [← hcheck]
    rfl

theorem addBlock_erase :
    (addBlock X receivers config block.erase).toOption
      = (addBlock X receivers config block).toOption := by
  have hsite : (addSite X receivers config block.erase block.domain block.https).toOption
      = (addSite X receivers config block block.domain block.https).toOption := by
    unfold addSite
    simp only [toOption_bind, toOption_ensure, toOption_pure, parseSite_erase]
  have hpayout : (addPayout X config block.erase).toOption
      = (addPayout X config block).toOption := by
    unfold addPayout
    simp only [toOption_bind, toOption_ensure, toOption_mapError, toOption_pure, erase_texts]
  unfold addBlock
  simp only [toOption_bind, toOption_ensure]
  refine congrArg₂ Option.bind rfl (funext fun _ => ?_)
  show Except.toOption (if block.address == "cashu_payout" then _ else _) = _
  split
  · exact hpayout
  · exact hsite

/-! ### Blocks -/

theorem declare_erase (found : Table ReceiverConfig × List Block) :
    (declare X (found.1, found.2.map Block.erase) block.erase).toOption
      = (declare X found block).toOption.map (fun p => (p.1, p.2.map Block.erase)) := by
  unfold declare
  rw [show block.erase.name = block.name from rfl]
  cases block.name with
  | none =>
    show some (found.1, found.2.map Block.erase ++ [block.erase]) = some (found.1, _)
    rw [List.map_append, List.map_singleton]
  | some name =>
    simp only [toOption_bind, toOption_ensure, toOption_mapError, toOption_pure, erase_texts,
      bind_ite_unit]
    cases (ReceiverConfig.parse X block.texts).toOption with
    | none => rfl
    | some receiver =>
      simp only [Option.bind_some]
      split <;> rfl

end

theorem expect_erase (kind : TokenKind) (e e' : ConfigError) (tokens : List Token) :
    (expect kind e (tokens.map Token.erase)).toOption
      = (expect kind e' tokens).toOption.map (List.map Token.erase) := by
  cases tokens with
  | nil => rfl
  | cons token rest =>
    show Except.toOption (if token.kind = kind then _ else _)
      = (Except.toOption (if token.kind = kind then _ else _)).map _
    split <;> rfl

theorem blockName_erase (line : ℕ) (address : String) (tokens : List Token) :
    (blockName 0 address (tokens.map Token.erase)).toOption
      = (blockName line address tokens).toOption.map (fun p => (p.1, p.2.map Token.erase)) := by
  unfold blockName
  split
  · unfold receiverName
    simp only [toOption_map, toOption_bind, toOption_context, toOption_ensure, toOption_pure,
      argument_erase, bind_ite_unit]
    cases argument tokens 0 with
    | none => rfl
    | some name =>
      simp only [Option.bind_some]
      split
      · rw [← List.map_tail]
        rfl
      · rfl
  · rfl

theorem takeBlock_erase (token : Token) (rest : List Token) :
    (takeBlock token.erase (rest.map Token.erase)).toOption
      = (takeBlock token rest).toOption.map (fun p => (p.1.erase, p.2.map Token.erase)) := by
  unfold takeBlock
  simp only [toOption_bind, toOption_context, toOption_pure, erase_text, erase_line]
  cases token.text with
  | none => rfl
  | some address =>
    simp only [Option.bind_some, blockName_erase token.line]
    cases (blockName token.line address rest).toOption with
    | none => rfl
    | some p =>
      obtain ⟨name, rest⟩ := p
      simp only [Option.map_some, Option.bind_some]
      rw [expect_erase .open _ ⟨token.line, "expected '\x7b' after block name"⟩]
      cases (expect .open _ rest).toOption with
      | none => rfl
      | some rest =>
        simp only [Option.map_some, Option.bind_some]
        have hbody : (rest.map Token.erase).takeWhile (fun token => token.text.isSome)
            = (rest.takeWhile (fun token => token.text.isSome)).map Token.erase := by
          rw [List.takeWhile_map]
          rfl
        rw [hbody, List.length_map, ← List.map_drop,
          expect_erase .close _ ⟨token.line, "expected '\x7d' after block directives"⟩]
        cases (expect .close _ (rest.drop _)).toOption <;> rfl

/-- The first pass. -/
theorem collect_erase (fuel : ℕ) (found : Table ReceiverConfig × List Block) (tokens : List Token) :
    (collect X fuel (found.1, found.2.map Block.erase) (tokens.map Token.erase)).toOption
      = (collect X fuel found tokens).toOption.map (fun p => (p.1, p.2.map Block.erase)) := by
  induction fuel generalizing found tokens with
  | zero => rfl
  | succ fuel ih =>
    cases tokens with
    | nil => rfl
    | cons token rest =>
      rw [List.map_cons]
      simp only [collect, toOption_bind, takeBlock_erase]
      cases (takeBlock token rest).toOption with
      | none => rfl
      | some p =>
        obtain ⟨block, rest⟩ := p
        simp only [Option.map_some, Option.bind_some, declare_erase]
        cases (declare X found block).toOption with
        | none => rfl
        | some found => exact ih found rest

/-- The second pass. -/
theorem foldlM_addBlock_erase (receivers : Table ReceiverConfig) (blocks : List Block)
    (config : Config) :
    ((blocks.map Block.erase).foldlM (addBlock X receivers) config).toOption
      = (blocks.foldlM (addBlock X receivers) config).toOption := by
  induction blocks generalizing config with
  | nil => rfl
  | cons block blocks ih =>
    rw [List.map_cons, List.foldlM_cons, List.foldlM_cons, toOption_bind, toOption_bind,
      addBlock_erase]
    exact congrArg _ (funext ih)

/-- **Line numbers only matter in errors.** -/
theorem ofTokens_erase (tokens : List Token) :
    (Config.ofTokens X (tokens.map Token.erase)).toOption = (Config.ofTokens X tokens).toOption := by
  have hcollect : (collect X tokens.length (∅, []) (tokens.map Token.erase)).toOption
      = (collect X tokens.length (∅, []) tokens).toOption.map
        (fun p => (p.1, p.2.map Block.erase)) :=
    collect_erase tokens.length (∅, []) tokens
  unfold Config.ofTokens
  simp only [toOption_bind, List.length_map]
  rw [hcollect]
  cases (collect X tokens.length (∅, []) tokens).toOption with
  | none => rfl
  | some p =>
    obtain ⟨receivers, blocks⟩ := p
    simp only [Option.map_some, Option.bind_some, foldlM_addBlock_erase]

end Geata.Geatafile
