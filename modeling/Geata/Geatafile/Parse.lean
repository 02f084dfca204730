import Geata.Geatafile.Site

namespace Geata.Geatafile

open Geata.Lib Geata.Lightning Geata.Payments
open Geata.Proxy (Limit RateLimiter Upstream Handler)

/-!
# Geatafiles

`Config::parse`: the receivers are collected before the sites are read, so that definitions can
stand in either order.

* `takeBlock`, `collect` — the first pass, over the tokens.
* `addBlock` — the second pass, over the blocks of sites and payouts.
* `Config.parse` — the whole, from the text of a file.
-/

structure Config where
  sites : Table Site
  payouts : List PayoutPolicy

variable (X : Geatafile.Crates)

/-! ### Blocks -/

/-- A block at the top level; `name` is that of a Lightning receiver. -/
structure Block where
  name : Option String
  address : String
  body : List Token
  line : ℕ

/-- The token after a brace or a name that has to be there. -/
def expect (kind : TokenKind) (e : ConfigError) : List Token → Except ConfigError (List Token)
  | token :: rest => if token.kind = kind then .ok rest else .error e
  | [] => .error e

/-- The name of a Lightning receiver. -/
def receiverName (line : ℕ) (tokens : List Token) : Except ConfigError (String × List Token) := do
  let name ← context ⟨line, "expected lightning <name> \x7b ... \x7d"⟩ (argument tokens 0)
  ensure (!name.isEmpty && name.toList.all (fun c => c.isAlphanum || c == '_' || c == '-'))
    ⟨line, "Lightning receiver name must use letters, digits, '_' or '-'"⟩
  return (name, tokens.tail)

/-- What stands before the brace of a block. -/
def blockName (line : ℕ) (address : String) (tokens : List Token) :
    Except ConfigError (Option String × List Token) :=
  if address == "lightning" then (receiverName line tokens).map (fun p => (some p.1, p.2))
  else .ok (none, tokens)

/-- The block that starts with `token`, and the tokens after it. -/
def takeBlock (token : Token) (rest : List Token) : Except ConfigError (Block × List Token) := do
  let line := token.line
  let address ← context ⟨line, "expected a site address or lightning block"⟩ token.text
  let (name, rest) ← blockName line address rest
  let rest ← expect .open ⟨line, "expected '\x7b' after block name"⟩ rest
  let body := rest.takeWhile (fun token => token.text.isSome)
  let rest ← expect .close ⟨line, "expected '\x7d' after block directives"⟩ (rest.drop body.length)
  return ({ name, address, body, line }, rest)

/-- The texts of a block. -/
def Block.texts (block : Block) : List String := block.body.filterMap Token.text

/-- A receiver is read at once, other blocks are kept for later. -/
def declare (found : Table ReceiverConfig × List Block) (block : Block) :
    Except ConfigError (Table ReceiverConfig × List Block) :=
  match block.name with
  | some name => do
    let receiver ← (ReceiverConfig.parse X block.texts).mapError (⟨block.line, ·⟩)
    ensure (found.1.lookup name).isNone ⟨block.line, "duplicate Lightning receiver name"⟩
    return (found.1.insert name receiver, found.2)
  | none => return (found.1, found.2 ++ [block])

/-- The first pass, with fuel for its tokens. -/
def collect : (fuel : ℕ) → Table ReceiverConfig × List Block → List Token →
    Except ConfigError (Table ReceiverConfig × List Block)
  | 0, found, _ | _, found, [] => .ok found
  | fuel + 1, found, token :: rest => do
    let (block, rest) ← takeBlock token rest
    let found ← declare X found block
    collect fuel found rest

/-! ### Sites and payouts -/

def addPayout (config : Config) (block : Block) : Except ConfigError Config := do
  let payout ← (PayoutPolicy.parse X block.texts).mapError (⟨block.line, ·⟩)
  ensure (!config.payouts.any (fun p => p.mint == payout.mint))
    ⟨block.line, "duplicate payout mint"⟩
  ensure (decide (config.payouts.length < 16))
    ⟨block.line, "at most 16 payout mints are supported"⟩
  return { config with payouts := config.payouts ++ [payout] }

/-- The capacity of a site: 128 requests unless it says otherwise, none when it is off. -/
def siteCapacity (parsed : ParsedDirectives) : Option Capacity :=
  ((some (parsed.maxInflight.getD 128)).filter (fun max => max != 0)).map
    (fun max => { Capacity.new max with ipv6Prefix := parsed.controls.ipv6Prefix })

/-- The site that parsed directives make. -/
def ParsedDirectives.site (parsed : ParsedDirectives) (domain : String) (https : Bool) : Site where
  domain := domain
  https := https
  handler := parsed.handler
  rateLimit := parsed.rateLimit.map (fun limit => ⟨limit, parsed.controls.ipv6Prefix⟩)
  payment := parsed.payment
  lightning := parsed.lightning
  capacity := siteCapacity parsed
  controls := parsed.controls
  paymentVerification := ⟨parsed.controls.paymentLimit, parsed.controls.ipv6Prefix⟩

/-- The Lightning policy belongs to its site. -/
def checkPolicy (policy : Option Policy) (line : ℕ) (domain : String) (https : Bool) :
    Except ConfigError Unit :=
  match policy with
  | none => .ok ()
  | some policy => (Policy.checkSite X policy domain https).mapError (⟨line, ·⟩)

/-- Read a site. -/
def parseSite (receivers : Table ReceiverConfig) (block : Block) (domain : String) (https : Bool) :
    Except ConfigError Site := do
  let parsed ← parseDirectives X block.body block.line receivers domain https
  checkPolicy X parsed.lightning block.line domain https
  return parsed.site domain https

def addSite (receivers : Table ReceiverConfig) (config : Config) (block : Block) (domain : String)
    (https : Bool) : Except ConfigError Config := do
  let site ← parseSite X receivers block domain https
  ensure (config.sites.lookup domain).isNone ⟨block.line, "duplicate site " ++ domain⟩
  return { config with sites := config.sites.insert domain site }

/-- A site is served over HTTPS unless its address says `http://`. -/
def Block.https (block : Block) : Bool := (stripPrefix "http://" block.address).isNone

def Block.domain (block : Block) : String :=
  String.ofList (toAsciiLowercase (((stripPrefix "http://" block.address).or
    (stripPrefix "https://" block.address)).getD block.address.toList))

/-- One block of the second pass. -/
def addBlock (receivers : Table ReceiverConfig) (config : Config) (block : Block) :
    Except ConfigError Config := do
  ensure (block.address == "cashu_payout" || validDomain block.domain block.https)
    ⟨block.line, "expected a domain (e.g. example.com); use http://localhost for local HTTP. Wildcards, local HTTPS, and site ports are not supported yet"⟩
  if block.address == "cashu_payout" then addPayout X config block
  else addSite X receivers config block block.domain block.https

/-! ### The whole -/

/-- `Config::parse` from the tokens on. -/
def Config.ofTokens (tokens : List Token) : Except ConfigError Config := do
  let (receivers, blocks) ← collect X tokens.length (∅, []) tokens
  let config ← blocks.foldlM (addBlock X receivers) { sites := ∅, payouts := [] }
  ensure (!config.sites.entries.isEmpty)
    ⟨1, "add at least one site: example.com \x7b reverse_proxy localhost:3000 \x7d"⟩
  return config

def Config.parse (input : String) : Except ConfigError Config := do
  ensure (decide (input.utf8ByteSize ≤ 1024 * 1024)) ⟨1, "configuration exceeds 1 MiB"⟩
  let tokens ← tokenize X.fromJson input
  Config.ofTokens X tokens

end Geata.Geatafile
