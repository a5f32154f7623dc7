import Mathlib.Algebra.Ring.Nat
import XfsVolume.Extent.Map

/-!
# Extents in file order

A fork's extents are non-empty and stand in file order without overlap (`InOrder`). Over such a list
a scan finds the one extent that holds a file block, and otherwise tells whether the block was
passed or the list ended before it; the check of a whole list accepts it, and accepts no other list.
The statements carry the end of what came before, so that lists which continue one another are
scanned as one.
-/

namespace XfsVolume

namespace Extent

/-- The extent's numbers fit their bits on the volume. -/
structure Fits (e : Extent) : Prop where
  start : e.start < 2 ^ startBits
  address : e.address < 2 ^ addressBits
  count : e.count < 2 ^ countBits

/-- The extent holds file block `block`. -/
def Holds (e : Extent) (block : Nat) : Prop := e.start ≤ block ∧ block < e.start + e.count

instance (e : Extent) (block : Nat) : Decidable (e.Holds block) :=
  inferInstanceAs (Decidable (_ ∧ _))

theorem ofWords_fits (hi lo : UInt64) : (ofWords hi lo).Fits := by
  have hlo : lo.toNat < 2 ^ 64 := lo.toNat_lt
  refine ⟨?_, ?_, ?_⟩
  · simp only [ofWords, Nat.one_shiftLeft]
    exact Nat.mod_lt _ (by decide)
  · have hlow : lo.toNat >>> 21 < 2 ^ 43 := by
      rw [Nat.shiftRight_eq_div_pow]
      omega
    have hhigh : hi.toNat % 512 < 512 := Nat.mod_lt _ (by decide)
    simp only [ofWords, Nat.shiftLeft_eq, countBits, addressBits]
    omega
  · simp only [ofWords, Nat.one_shiftLeft]
    exact Nat.mod_lt _ (by decide)

theorem fits_of_decode {b : ByteArray} {off : Nat} {e : Extent} (h : decode b off = .ok e) :
    e.Fits := by
  rw [decode] at h
  cases hhi : readU64 b off with
  | error f => rw [hhi] at h; cases h
  | ok hi =>
    cases hlo : readU64 b (off + 8) with
    | error f => rw [hhi, hlo] at h; cases h
    | ok lo =>
      rw [hhi, hlo] at h
      cases h
      exact ofWords_fits hi lo

theorem decodeList_cons_inv {b : ByteArray} {off n : Nat} {es : List Extent}
    (h : decodeList b off (n + 1) = .ok es) :
    ∃ e rest, decode b off = .ok e ∧ decodeList b (off + 16) n = .ok rest ∧ es = e :: rest := by
  rw [decodeList] at h
  cases he : decode b off with
  | error f => rw [he] at h; cases h
  | ok e =>
    cases hr : decodeList b (off + 16) n with
    | error f => rw [he, hr] at h; cases h
    | ok rest =>
      rw [he, hr] at h
      cases h
      exact ⟨e, rest, rfl, rfl, rfl⟩

/-- Decoding gives as many extents as were asked for, all within their bits. -/
theorem decodeList_spec {b : ByteArray} : ∀ {n off : Nat} {es : List Extent},
    decodeList b off n = .ok es → es.length = n ∧ ∀ e ∈ es, e.Fits
  | 0, _, es, h => by
      cases h
      exact ⟨rfl, by simp⟩
  | n + 1, off, es, h => by
      obtain ⟨e, rest, he, hr, rfl⟩ := decodeList_cons_inv h
      obtain ⟨hlen, hfit⟩ := decodeList_spec hr
      refine ⟨by rw [List.length_cons, hlen], ?_⟩
      intro x hx
      rcases List.mem_cons.mp hx with rfl | hx
      · exact fits_of_decode he
      · exact hfit x hx

theorem Fits.stop_eq {e : Extent} (h : e.Fits) : e.stop = e.start + e.count := by
  have hs := h.start
  have hc := h.count
  simp only [startBits, countBits] at hs hc
  rw [stop, Nat.min_eq_left]
  simp only [wordLimit, UInt64.size]
  omega

theorem Fits.covers_iff {e : Extent} (h : e.Fits) (block : Nat) :
    e.covers block = true ↔ e.Holds block := by
  rw [covers, h.stop_eq, Bool.and_eq_true, decide_eq_true_eq, decide_eq_true_eq, Holds]

end Extent

/-- Extents within their bits that are not empty and stand in file order without overlap. -/
structure InOrder (es : List Extent) : Prop where
  fits : ∀ e ∈ es, e.Fits
  nonempty : ∀ e ∈ es, 0 < e.count
  disjoint : es.Pairwise fun a b => a.start + a.count ≤ b.start

/-- No extent starts before `prevEnd`. -/
def StartsAfter (prevEnd : Option Nat) (es : List Extent) : Prop :=
  ∀ p ∈ prevEnd, ∀ e ∈ es, p ≤ e.start

/-- End of the last extent, or `prevEnd` when there is none. -/
def endAfter (prevEnd : Option Nat) (es : List Extent) : Option Nat :=
  (es.getLast?.map Extent.stop).or prevEnd

@[simp] theorem endAfter_nil (prevEnd : Option Nat) : endAfter prevEnd [] = prevEnd := rfl

@[simp] theorem endAfter_cons (prevEnd : Option Nat) (e : Extent) (es : List Extent) :
    endAfter prevEnd (e :: es) = endAfter (some e.stop) es := by
  cases es with
  | nil => rfl
  | cons x xs => simp [endAfter, List.getLast?_cons]

theorem startsAfter_none (es : List Extent) : StartsAfter none es := by
  intro p hp
  cases hp

namespace InOrder

theorem nil : InOrder [] := ⟨by simp, by simp, List.Pairwise.nil⟩

theorem head {e : Extent} {es : List Extent} (h : InOrder (e :: es)) : e.Fits ∧ 0 < e.count :=
  ⟨h.fits e List.mem_cons_self, h.nonempty e List.mem_cons_self⟩

theorem tail {e : Extent} {es : List Extent} (h : InOrder (e :: es)) : InOrder es :=
  ⟨fun x hx => h.fits x (List.mem_cons_of_mem _ hx),
    fun x hx => h.nonempty x (List.mem_cons_of_mem _ hx), h.disjoint.of_cons⟩

theorem startsAfter_head {e : Extent} {es : List Extent} (h : InOrder (e :: es)) :
    StartsAfter (some e.stop) es := by
  intro p hp x hx
  cases hp
  rw [h.head.1.stop_eq]
  exact (List.pairwise_cons.mp h.disjoint).1 x hx

theorem left {es fs : List Extent} (h : InOrder (es ++ fs)) : InOrder es :=
  ⟨fun x hx => h.fits x (List.mem_append_left _ hx),
    fun x hx => h.nonempty x (List.mem_append_left _ hx), (List.pairwise_append.mp h.disjoint).1⟩

theorem right {es fs : List Extent} (h : InOrder (es ++ fs)) : InOrder fs :=
  ⟨fun x hx => h.fits x (List.mem_append_right _ hx),
    fun x hx => h.nonempty x (List.mem_append_right _ hx), (List.pairwise_append.mp h.disjoint).2.1⟩

theorem sublist {es fs : List Extent} (h : InOrder fs) (hsub : es.Sublist fs) : InOrder es :=
  ⟨fun x hx => h.fits x (hsub.mem hx), fun x hx => h.nonempty x (hsub.mem hx),
    h.disjoint.sublist hsub⟩

theorem startsAfter_right {prevEnd : Option Nat} {es fs : List Extent} (h : InOrder (es ++ fs))
    (hp : StartsAfter prevEnd (es ++ fs)) : StartsAfter (endAfter prevEnd es) fs := by
  intro p hpe x hx
  rw [endAfter] at hpe
  cases hl : es.getLast? with
  | none =>
    rw [hl] at hpe
    exact hp p hpe x (List.mem_append_right _ hx)
  | some e =>
    rw [hl] at hpe
    cases hpe
    have he : e ∈ es := List.mem_of_getLast? hl
    rw [(h.fits e (List.mem_append_left _ he)).stop_eq]
    exact (List.pairwise_append.mp h.disjoint).2.2 e he x hx

/-- A file block is held by one extent at most. -/
theorem eq_of_holds {es : List Extent} (h : InOrder es) {a b : Extent} (ha : a ∈ es) (hb : b ∈ es)
    {block : Nat} (hab : a.Holds block) (hbb : b.Holds block) : a = b := by
  induction es with
  | nil => cases ha
  | cons e es ih =>
    have hhead := (List.pairwise_cons.mp h.disjoint).1
    rcases List.mem_cons.mp ha with rfl | ha'
    · rcases List.mem_cons.mp hb with rfl | hb'
      · rfl
      · have := hhead b hb'
        have := hab.2
        have := hbb.1
        omega
    · rcases List.mem_cons.mp hb with rfl | hb'
      · have := hhead a ha'
        have := hab.1
        have := hbb.2
        omega
      · exact ih h.tail ha' hb'

end InOrder

/-! ## Checks and scans -/

namespace Extent

theorem checkAfter_eq_ok {e : Extent} (block : Nat) {prevEnd : Option Nat} (hc : 0 < e.count)
    (hp : ∀ p ∈ prevEnd, p ≤ e.start) : e.checkAfter block prevEnd = .ok () := by
  have hflaw : e.flawAfter? prevEnd = none := by
    unfold flawAfter?
    rw [if_neg (by omega)]
    cases prevEnd with
    | none => rfl
    | some p =>
      have := hp p rfl
      exact if_neg (by omega)
  rw [checkAfter, hflaw]

theorem of_checkAfter {e : Extent} {block : Nat} {prevEnd : Option Nat} {u : Unit}
    (h : e.checkAfter block prevEnd = .ok u) : 0 < e.count ∧ ∀ p ∈ prevEnd, p ≤ e.start := by
  unfold checkAfter flawAfter? at h
  by_cases hc : e.count = 0
  · rw [if_pos hc] at h
    cases h
  · rw [if_neg hc] at h
    refine ⟨by omega, ?_⟩
    intro p hp
    cases hp
    by_cases hlt : e.start < p
    · simp only [if_pos hlt] at h
      cases h
    · omega

end Extent

/-- The check of a list that is in order accepts it, and gives its end. -/
theorem checkExtents_eq_ok (block : Nat) : ∀ {es : List Extent} {prevEnd : Option Nat},
    InOrder es → StartsAfter prevEnd es → checkExtents block prevEnd es = .ok (endAfter prevEnd es)
  | [], _, _, _ => rfl
  | e :: es, prevEnd, ho, hp => by
      have he := Extent.checkAfter_eq_ok block ho.head.2
        fun p hpe => hp p hpe e List.mem_cons_self
      rw [checkExtents, he, endAfter_cons]
      exact checkExtents_eq_ok block ho.tail ho.startsAfter_head

/-- The check accepts only lists that are in order. -/
theorem inOrder_of_checkExtents {block : Nat} : ∀ {es : List Extent} {prevEnd last : Option Nat},
    (∀ e ∈ es, e.Fits) → checkExtents block prevEnd es = .ok last →
      InOrder es ∧ StartsAfter prevEnd es
  | [], _, _, _, _ => ⟨InOrder.nil, by intro p _ e he; cases he⟩
  | e :: es, prevEnd, last, hf, h => by
      rw [checkExtents] at h
      cases hc : e.checkAfter block prevEnd with
      | error f => rw [hc] at h; cases h
      | ok u =>
        rw [hc] at h
        obtain ⟨hcount, hstart⟩ := Extent.of_checkAfter hc
        have hfe := hf e List.mem_cons_self
        obtain ⟨ho, hs⟩ := inOrder_of_checkExtents
          (fun x hx => hf x (List.mem_cons_of_mem _ hx)) h
        have hafter : ∀ x ∈ es, e.start + e.count ≤ x.start := by
          intro x hx
          rw [← hfe.stop_eq]
          exact hs _ rfl x hx
        refine ⟨⟨hf, ?_, List.pairwise_cons.mpr ⟨hafter, ho.disjoint⟩⟩, ?_⟩
        · intro x hx
          rcases List.mem_cons.mp hx with rfl | hx
          · exact hcount
          · exact ho.nonempty x hx
        · intro p hp x hx
          have hpe := hstart p hp
          rcases List.mem_cons.mp hx with rfl | hx
          · exact hpe
          · have := hafter x hx
            omega

/-- A scan finds the extent that holds the file block. -/
theorem scanExtents_of_holds (block : Nat) {logical : Nat} : ∀ {es : List Extent}
    {prevEnd : Option Nat} {e : Extent}, InOrder es → StartsAfter prevEnd es → e ∈ es →
      e.Holds logical → scanExtents block logical prevEnd es = .ok (.found e)
  | [], _, _, _, _, he, _ => by cases he
  | x :: es, prevEnd, e, ho, hp, he, hh => by
      have hx := Extent.checkAfter_eq_ok block ho.head.2
        fun p hpe => hp p hpe x List.mem_cons_self
      have hcov := ho.head.1.covers_iff logical
      rw [scanExtents, hx]
      rcases List.mem_cons.mp he with rfl | he
      · exact if_pos (hcov.mpr hh)
      · have hlt := (List.pairwise_cons.mp ho.disjoint).1 e he
        have hsh := hh.1
        have hno : ¬ x.covers logical = true := by
          rw [hcov, Extent.Holds]
          omega
        refine (if_neg hno).trans ((if_neg (by omega)).trans ?_)
        exact scanExtents_of_holds block ho.tail ho.startsAfter_head he hh

/-- A scan for a file block that no extent holds stops at the first extent past it, or else at the
list's end. -/
theorem scanExtents_of_not_holds (block : Nat) {logical : Nat} : ∀ {es : List Extent}
    {prevEnd : Option Nat}, InOrder es → StartsAfter prevEnd es →
      (∀ e ∈ es, ¬ e.Holds logical) →
      (scanExtents block logical prevEnd es = .ok .passed ∧ ∃ e ∈ es, logical < e.start) ∨
        scanExtents block logical prevEnd es = .ok (.ended (endAfter prevEnd es))
  | [], _, _, _, _ => Or.inr rfl
  | x :: es, prevEnd, ho, hp, hn => by
      have hx := Extent.checkAfter_eq_ok block ho.head.2
        fun p hpe => hp p hpe x List.mem_cons_self
      have hno : ¬ x.covers logical = true := by
        rw [ho.head.1.covers_iff]
        exact hn x List.mem_cons_self
      have hstep : scanExtents block logical prevEnd (x :: es) =
          if x.start > logical then .ok .passed
          else scanExtents block logical (some x.stop) es := by
        rw [scanExtents, hx]
        exact if_neg hno
      rw [hstep, endAfter_cons]
      by_cases hlt : x.start > logical
      · exact Or.inl ⟨if_pos hlt, x, List.mem_cons_self, hlt⟩
      · rw [if_neg hlt]
        rcases scanExtents_of_not_holds block ho.tail ho.startsAfter_head
          fun e he => hn e (List.mem_cons_of_mem _ he) with ⟨hs, e, he, hlt⟩ | hs
        · exact Or.inl ⟨hs, e, List.mem_cons_of_mem _ he, hlt⟩
        · exact Or.inr hs

end XfsVolume
