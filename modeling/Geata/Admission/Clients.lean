import Geata.Admission.Permits

namespace Geata.Admission

open Geata.Lib Geata.RateLimit

/-!
# Client identities

`client_key` is what every limit counts by.  It takes an IPv4 address out of an IPv6 one first and
clears the low bits of what is left of IPv6 after that.

* `toCanonical_v6` — what it keeps of an IPv6 address.
* `and_prefixMask` — two addresses are the same under a mask when their top bits are.
* `clientKey_partition` — the identities are the IPv4 addresses and the IPv6 networks.
-/

/-! ### The identities there should be -/

/-- An IPv4 address inside an IPv6 one. -/
def mapped (bits : BitVec 32) : BitVec 128 := 0xffff#96 ++ bits

/-- An IPv4 address, as such or inside an IPv6 one. -/
def StandsFor (ip : IpAddr) (bits : BitVec 32) : Prop := ip = .v4 bits ∨ ip = .v6 (mapped bits)

/-- One IPv4 address, or two IPv6 addresses in one network. -/
inductive SameClient (p : ℕ) : IpAddr → IpAddr → Prop where
  | ipv4 {a b : IpAddr} {bits : BitVec 32} (ha : StandsFor a bits) (hb : StandsFor b bits) :
      SameClient p a b
  | ipv6 {x y : BitVec 128} (hx : ∀ bits, x ≠ mapped bits) (hy : ∀ bits, y ≠ mapped bits)
      (agree : ∀ i < p, x.getMsbD i = y.getMsbD i) : SameClient p (.v6 x) (.v6 y)

/-! ### Canonical addresses -/

variable {x y : BitVec 128} {bits : BitVec 32} {p q : UInt8}

theorem getLsbD_mapped (bits : BitVec 32) (i : ℕ) : (mapped bits).getLsbD i =
    if i < 32 then bits.getLsbD i else (0xffff#96).getLsbD (i - 32) := BitVec.getLsbD_append

/-- The constant of the source, in the width of an address and in that of its top. -/
theorem getLsbD_ffff {i : ℕ} (hi : i < 96) : (0xffff#128).getLsbD i = (0xffff#96).getLsbD i := by
  rw [BitVec.getLsbD_ofNat, BitVec.getLsbD_ofNat]
  simp only [hi, show i < 128 by omega]

/-- An address has an IPv4 address inside exactly when its top says so. -/
theorem shift_eq_iff : x >>> 32 = 0xffff#128 ↔ x = mapped (x.truncate 32) := by
  constructor
  · intro h
    ext i hi
    rw [← BitVec.getLsbD_eq_getElem, ← BitVec.getLsbD_eq_getElem, getLsbD_mapped]
    split
    · rename_i hlow
      rw [BitVec.truncate_eq_setWidth, BitVec.getLsbD_setWidth]
      simp [hlow]
    · rename_i hhigh
      have hbit : (x >>> 32).getLsbD (i - 32) = (0xffff#128).getLsbD (i - 32) := by rw [h]
      rw [BitVec.getLsbD_ushiftRight, getLsbD_ffff (by omega)] at hbit
      rw [← hbit]
      congr 1
      omega
  · intro h
    rw [h]
    ext i hi
    rw [← BitVec.getLsbD_eq_getElem, ← BitVec.getLsbD_eq_getElem, BitVec.getLsbD_ushiftRight,
      getLsbD_mapped, if_neg (by omega)]
    by_cases htop : i < 96
    · rw [getLsbD_ffff htop]
      congr 1
      omega
    · rw [BitVec.getLsbD_of_ge _ _ (by omega), BitVec.getLsbD_ofNat]
      have hbig : 0xffff < 2 ^ i := Nat.lt_of_lt_of_le (by decide) (Nat.pow_le_pow_right (by decide) (by omega : 16 ≤ i))
      rw [Nat.testBit_lt_two_pow hbig, Bool.and_false]

theorem truncate_mapped (bits : BitVec 32) : (mapped bits).truncate 32 = bits := by
  ext i hi
  rw [← BitVec.getLsbD_eq_getElem, ← BitVec.getLsbD_eq_getElem, BitVec.truncate_eq_setWidth,
    BitVec.getLsbD_setWidth, getLsbD_mapped, if_pos hi]
  simp [hi]

theorem toCanonical_mapped (bits : BitVec 32) : toCanonical (.v6 (mapped bits)) = .v4 bits := by
  have hshift : mapped bits >>> 32 = 0xffff#128 := shift_eq_iff.mpr (by rw [truncate_mapped])
  show (if mapped bits >>> 32 = 0xffff#128 then _ else _) = _
  rw [if_pos hshift, truncate_mapped]

theorem toCanonical_v6 (h : ∀ bits, x ≠ mapped bits) : toCanonical (.v6 x) = .v6 x :=
  if_neg (fun hshift => h _ (shift_eq_iff.mp hshift))

/-- An address is an IPv4 address, or an IPv6 address without one inside. -/
theorem address_cases (ip : IpAddr) :
    (∃ bits, StandsFor ip bits) ∨ ∃ x, ip = .v6 x ∧ ∀ bits, x ≠ mapped bits := by
  cases ip with
  | v4 bits => exact .inl ⟨bits, .inl rfl⟩
  | v6 x =>
    by_cases h : x = mapped (x.truncate 32)
    · exact .inl ⟨_, .inr (congrArg IpAddr.v6 h)⟩
    · refine .inr ⟨x, rfl, fun bits hx => h ?_⟩
      rw [hx, truncate_mapped]

/-! ### Masks -/

theorem getLsbD_and_prefixMask (x : BitVec 128) (p : UInt8) (i : ℕ) :
    (x &&& prefixMask p).getLsbD i = (x.getLsbD i && decide (128 - p.toNat ≤ i)) := by
  unfold prefixMask
  rw [BitVec.getLsbD_and, BitVec.getLsbD_shiftLeft, BitVec.getLsbD_allOnes]
  by_cases hi : i < 128
  · by_cases hlow : i < 128 - p.toNat
    · have hle : ¬ 128 - p.toNat ≤ i := by omega
      simp [hlow, hi, hle]
    · have hle : 128 - p.toNat ≤ i := by omega
      have hsub : i - (128 - p.toNat) < 128 := by omega
      simp [hlow, hi, hle, hsub]
  · rw [BitVec.getLsbD_of_ge x i (by omega), Bool.false_and, Bool.false_and]

/-- Two addresses are the same under a mask exactly when they agree in the bits it leaves. -/
theorem and_prefixMask (hp : p.toNat ≤ 128) : x &&& prefixMask p = y &&& prefixMask p ↔
    ∀ i < p.toNat, x.getMsbD i = y.getMsbD i := by
  constructor
  · intro h i hi
    have hbit : (x &&& prefixMask p).getLsbD (127 - i) = (y &&& prefixMask p).getLsbD (127 - i) := by
      rw [h]
    have hle : 128 - p.toNat ≤ 127 - i := by omega
    rw [getLsbD_and_prefixMask, getLsbD_and_prefixMask, decide_eq_true hle, Bool.and_true,
      Bool.and_true] at hbit
    rw [BitVec.getMsbD_eq_getLsbD, BitVec.getMsbD_eq_getLsbD, show 128 - 1 - i = 127 - i from rfl, hbit]
  · intro h
    ext j hj
    rw [← BitVec.getLsbD_eq_getElem, ← BitVec.getLsbD_eq_getElem, getLsbD_and_prefixMask,
      getLsbD_and_prefixMask]
    by_cases hle : 128 - p.toNat ≤ j
    · have hbit := h (127 - j) (by omega)
      rw [BitVec.getMsbD_eq_getLsbD, BitVec.getMsbD_eq_getLsbD,
        show 128 - 1 - (127 - j) = j by omega] at hbit
      have hlt : 127 - j < 128 := by omega
      rw [decide_eq_true hlt, Bool.true_and, Bool.true_and] at hbit
      rw [hbit]
    · rw [decide_eq_false hle, Bool.and_false, Bool.and_false]

/-- Masking makes no IPv4 address: its mark is above every bit that the mask clears, or the mask clears
    one of its ones. -/
theorem and_prefixMask_ne_mapped (h : ∀ bits, x ≠ mapped bits) (p : UInt8) (bits : BitVec 32) :
    x &&& prefixMask p ≠ mapped bits := by
  intro heq
  have hbits : ∀ i, (x.getLsbD i && decide (128 - p.toNat ≤ i)) = (mapped bits).getLsbD i :=
    fun i => by rw [← heq, getLsbD_and_prefixMask]
  have hone : (mapped bits).getLsbD 32 = true := by
    rw [getLsbD_mapped, if_neg (Nat.lt_irrefl 32)]
    rfl
  have hlow : 128 - p.toNat ≤ 32 := by
    have h32 := (hbits 32).trans hone
    rw [Bool.and_eq_true] at h32
    exact of_decide_eq_true h32.2
  -- so the address itself has the mark
  refine h (x.truncate 32) ?_
  ext i hi
  rw [← BitVec.getLsbD_eq_getElem, ← BitVec.getLsbD_eq_getElem, getLsbD_mapped]
  split
  · rename_i hi32
    rw [BitVec.truncate_eq_setWidth, BitVec.getLsbD_setWidth]
    simp [hi32]
  · rename_i hi32
    have hle : 128 - p.toNat ≤ i := by omega
    have hbit := hbits i
    rw [decide_eq_true hle, Bool.and_true, getLsbD_mapped, if_neg hi32] at hbit
    exact hbit

/-! ### Keys -/

theorem clientKey_ipv4 {ip : IpAddr} (h : StandsFor ip bits) (p : UInt8) :
    clientKey ip p = .v4 bits := by
  unfold clientKey
  rcases h with rfl | rfl
  · rfl
  · rw [toCanonical_mapped]

theorem clientKey_ipv6 (h : ∀ bits, x ≠ mapped bits) (p : UInt8) :
    clientKey (.v6 x) p = .v6 (x &&& prefixMask p) := by
  unfold clientKey
  rw [toCanonical_v6 h]

theorem clientKey_eq_iff (hp : p.toNat ≤ 128) (a b : IpAddr) :
    clientKey a p = clientKey b p ↔ SameClient p.toNat a b := by
  constructor
  · intro h
    rcases address_cases a with ⟨bits, ha⟩ | ⟨x, rfl, hx⟩ <;>
      rcases address_cases b with ⟨bits', hb⟩ | ⟨y, rfl, hy⟩
    · rw [clientKey_ipv4 ha, clientKey_ipv4 hb] at h
      obtain rfl := IpAddr.v4.inj h
      exact .ipv4 ha hb
    · rw [clientKey_ipv4 ha, clientKey_ipv6 hy] at h
      exact nomatch h
    · rw [clientKey_ipv6 hx, clientKey_ipv4 hb] at h
      exact nomatch h
    · rw [clientKey_ipv6 hx, clientKey_ipv6 hy] at h
      exact .ipv6 hx hy ((and_prefixMask hp).mp (IpAddr.v6.inj h))
  · intro h
    cases h with
    | ipv4 ha hb => rw [clientKey_ipv4 ha, clientKey_ipv4 hb]
    | ipv6 hx hy agree => rw [clientKey_ipv6 hx, clientKey_ipv6 hy, (and_prefixMask hp).mpr agree]

theorem SameClient.mono {m n : ℕ} (hle : m ≤ n) {a b : IpAddr} (h : SameClient n a b) :
    SameClient m a b := by
  cases h with
  | ipv4 ha hb => exact .ipv4 ha hb
  | ipv6 hx hy agree => exact .ipv6 hx hy (fun i hi => agree i (hi.trans_le hle))

/-- **The keys are the clients.**  Two addresses have one key exactly when they are the same IPv4
    address, as such or inside an IPv6 one, or IPv6 addresses with the same top bits; an IPv6 key is
    no IPv4 address, not even inside; a key is its own key; a longer prefix tells more clients apart;
    and so every limit treats two addresses of one client as one. -/
theorem clientKey_partition (hp : p.toNat ≤ 128) :
    (∀ a b, clientKey a p = clientKey b p ↔ SameClient p.toNat a b) ∧
    (∀ a x, clientKey a p = .v6 x → ∀ b bits, StandsFor b bits →
      clientKey b p ≠ .v6 x ∧ x ≠ mapped bits) ∧
    (∀ a, clientKey (clientKey a p) p = clientKey a p) ∧
    (∀ q : UInt8, p ≤ q → q.toNat ≤ 128 → ∀ a b, clientKey a q = clientKey b q →
      clientKey a p = clientKey b p) ∧
    (∀ a b, SameClient p.toNat a b →
      (∀ limiter : RateLimiter, limiter.ipv6Prefix = p → ∀ now,
        limiter.check a now = limiter.check b now) ∧
      ∀ capacity : Capacity, capacity.ipv6Prefix = p →
        capacity.tryAcquire a = capacity.tryAcquire b) := by
  have hv6 : ∀ a x, clientKey a p = .v6 x → ∀ bits, x ≠ mapped bits := by
    intro a x ha
    rcases address_cases a with ⟨bits, hbits⟩ | ⟨y, rfl, hy⟩
    · rw [clientKey_ipv4 hbits] at ha
      exact nomatch ha
    · rw [clientKey_ipv6 hy] at ha
      obtain rfl := IpAddr.v6.inj ha
      exact and_prefixMask_ne_mapped hy p
  refine ⟨clientKey_eq_iff hp, fun a x ha b bits hb => ⟨?_, hv6 a x ha bits⟩, fun a => ?_,
    fun q hle hq a b h => ?_, fun a b h => ⟨fun limiter hl now => ?_, fun capacity hc => ?_⟩⟩
  · rw [clientKey_ipv4 hb]
    exact nofun
  · -- a key is canonical, and has been masked
    cases ha : clientKey a p with
    | v4 bits => rfl
    | v6 x =>
      rw [clientKey_ipv6 (hv6 a x ha)]
      rcases address_cases a with ⟨bits, hbits⟩ | ⟨y, rfl, hy⟩
      · rw [clientKey_ipv4 hbits] at ha
        exact nomatch ha
      · rw [clientKey_ipv6 hy] at ha
        rw [← IpAddr.v6.inj ha, BitVec.and_assoc, BitVec.and_self]
  · rw [clientKey_eq_iff hq] at h
    exact (clientKey_eq_iff hp a b).mpr (h.mono (UInt8.le_iff_toNat_le.mp hle))
  · have hkey := (clientKey_eq_iff hp a b).mpr h
    unfold RateLimiter.check
    rw [hl, hkey]
  · have hkey := (clientKey_eq_iff hp a b).mpr h
    unfold Capacity.tryAcquire
    rw [hc, hkey]

/-- An address and its IPv6 form, under any prefix a limiter can have. -/
theorem clientKey_partition_loopback :
    clientKey (.v4 0x7f000001) 64 = clientKey (.v6 (mapped 0x7f000001)) 64 := by
  have h : (64 : UInt8).toNat ≤ 128 := by decide
  exact ((clientKey_partition h).1 _ _).mpr (.ipv4 (.inl rfl) (.inr rfl))

end Geata.Admission
