import KernelMemory.Proofs.Paging.Mapping

/-!
# Ranges of addresses

A `MapCall` names a range of virtual addresses and the physical memory that is to lie behind it.  In
each half of the canonical addresses, an address is its distance from the start `high` of the
surrounding `2 ^ 48` bytes, and addresses of both halves are in the order of these distances.  So the
range is a run of pages, and a request for it maps the address `v` to `pa + (v - va)`.
-/

namespace KernelMemory

open Paging (levelCount shiftOf windowOf windowOf_pos windowOf_dvd windowOf_eq slotOf)

lemma Address.isCanonical_iff {space : Space} (a : Address space) :
    a.isCanonical = true ↔ a.toNat < 2 ^ 47 ∨ 2 ^ 64 - 2 ^ 47 ≤ a.toNat := by
  have hlt := a.toNat_lt
  simp only [Address.isCanonical]
  rw [Bool.or_eq_true, beq_iff_eq, beq_iff_eq, Nat.shiftRight_eq_div_pow]
  omega

lemma PageSize.window_level (size : PageSize) : windowOf size.level = size.bytes := by
  cases size <;> rfl

lemma PageSize.level_le (size : PageSize) : size.level ≤ 2 := by
  cases size <;> decide

lemma PageSize.bytes_dvd (size : PageSize) {n : Nat} (hn : 30 ≤ n) : size.bytes ∣ 2 ^ n :=
  Nat.pow_dvd_pow 2 (Nat.le_trans (by cases size <;> decide) hn)

lemma PageSize.bytes_le (size : PageSize) : size.bytes ≤ 2 ^ 30 :=
  Nat.le_of_dvd (Nat.two_pow_pos 30) (size.bytes_dvd (Nat.le_refl 30))

/-- A range to be mapped. -/
structure MapCall where
  size : PageSize
  va : VirtualAddress
  bytes : Nat
  pa : PhysicalAddress
  flags : MappingFlags
  deriving DecidableEq, Repr

namespace MapCall

variable {σ : Type} [TableStore σ] {call : MapCall} {n : Nat} {v : VirtualAddress}

/-- Map the range in an address space. -/
def run (call : MapCall) (space : AddressSpace) : Attempt MapError σ Unit :=
  space.mapRange call.size call.va call.bytes call.pa call.flags

/-- The last address of the range. -/
def last (call : MapCall) : Nat :=
  call.va.toNat + (call.bytes - 1)

/-- The call keeps the rules: all numbers are multiples of the page size, and the range, unless it is
empty, does not wrap around and lies in one half of the canonical addresses. -/
structure Proper (call : MapCall) : Prop where
  va : call.va.isAligned call.size = true
  pa : call.pa.isAligned call.size = true
  bytes : call.bytes % call.size.bytes = 0
  range : call.bytes ≠ 0 → call.last < 2 ^ 64 ∧ call.va.isCanonical = true ∧
    (Address.ofNat call.last : VirtualAddress).isCanonical = true ∧
    call.va.toNat >>> 63 = call.last >>> 63

/-- The request that stands for the call. -/
def request (call : MapCall) : MapRequest :=
  ⟨call.last, (call.pa.toNat + 2 ^ 64 - call.va.toNat) % 2 ^ 64, call.size.level, call.flags⟩

/-- Where the `2 ^ 48` bytes around the range start. -/
def high (call : MapCall) : Nat :=
  call.va.toNat / 2 ^ 48 * 2 ^ 48

/-- The first page of the range. -/
def first (call : MapCall) : Nat :=
  slotOf call.size.level call.va.toNat

/-- The number of pages in the range. -/
def count (call : MapCall) : Nat :=
  call.bytes / call.size.bytes

/-- The address lies in the range. -/
def Covers (call : MapCall) (v : VirtualAddress) : Prop :=
  call.va.toNat ≤ v.toNat ∧ v.toNat < call.va.toNat + call.bytes

instance (call : MapCall) (v : VirtualAddress) : Decidable (call.Covers v) :=
  inferInstanceAs (Decidable (_ ∧ _))

namespace Proper

lemma bytes_eq (h : call.Proper) : call.bytes = call.count * call.size.bytes := by
  have := Nat.div_add_mod call.bytes call.size.bytes
  rw [h.bytes, Nat.add_zero, Nat.mul_comm] at this
  exact this.symm

/-- The first page starts at the start of the range. -/
lemma first_eq (h : call.Proper) : call.first * call.size.bytes = call.va.toNat % 2 ^ 48 := by
  have hva : call.va.toNat % call.size.bytes = 0 := beq_iff_eq.1 h.va
  have hmod := Nat.mod_mod_of_dvd call.va.toNat (call.size.bytes_dvd (n := 48) (by decide))
  have hdiv := Nat.div_add_mod (call.va.toNat % 2 ^ 48) call.size.bytes
  rw [hmod, hva, Nat.add_zero, Nat.mul_comm] at hdiv
  simp only [first, slotOf]
  rwa [call.size.window_level]

/-- The bounds of a range that is not empty: it ends at the latest with its half. -/
lemma bounds (h : call.Proper) (hpos : call.bytes ≠ 0) :
    call.va.toNat + call.bytes ≤ 2 ^ 47 ∨
      2 ^ 64 - 2 ^ 47 ≤ call.va.toNat ∧ call.va.toNat + call.bytes ≤ 2 ^ 64 := by
  obtain ⟨hlt, hva, hlast, hhalf⟩ := h.range hpos
  rw [Address.isCanonical_iff] at hva hlast
  rw [Address.toNat_ofNat, Nat.mod_eq_of_lt hlt] at hlast
  rw [Nat.shiftRight_eq_div_pow, Nat.shiftRight_eq_div_pow] at hhalf
  simp only [last] at *
  omega

lemma canonical (h : call.Proper) (hcovers : call.Covers v) : v.isCanonical = true := by
  simp only [Covers] at hcovers
  have hbounds := h.bounds (by omega)
  rw [Address.isCanonical_iff]
  omega

/-- The request of a proper call fills whole pages. -/
lemma spans (h : call.Proper) (hpos : call.bytes ≠ 0) :
    call.request.Spans call.high (call.first + call.count - 1) := by
  have hbounds := h.bounds hpos
  have hfirst := h.first_eq
  have hbytes := h.bytes_eq
  have hlevel := call.size.level_le
  have hcount : 0 < call.count := Nat.pos_of_ne_zero fun h0 => hpos (by rw [hbytes, h0, Nat.zero_mul])
  have hpages : (call.first + call.count - 1 + 1) * windowOf call.size.level =
      call.first * call.size.bytes + call.bytes := by
    rw [Nat.sub_add_cancel (by omega), call.size.window_level, Nat.add_mul, hbytes]
  have hhigh : call.high = call.va.toNat / 2 ^ 48 * 2 ^ 48 := rfl
  have hlast : call.last = call.va.toNat + (call.bytes - 1) := rfl
  refine ⟨?_, ?_, ?_, ?_, ?_, ?_⟩
  · show call.size.level ≤ 3
    omega
  · omega
  · omega
  · show call.last + 1 = call.high + _ * windowOf call.size.level
    omega
  · show _ * windowOf call.size.level ≤ _
    omega
  · show (call.pa.toNat + 2 ^ 64 - call.va.toNat) % 2 ^ 64 % windowOf call.size.level = 0
    have hpa : call.size.bytes ∣ call.pa.toNat := Nat.dvd_of_mod_eq_zero (beq_iff_eq.1 h.pa)
    have hva : call.size.bytes ∣ call.va.toNat := Nat.dvd_of_mod_eq_zero (beq_iff_eq.1 h.va)
    have hdvd := call.size.bytes_dvd (n := 64) (by decide)
    rw [call.size.window_level, Nat.mod_mod_of_dvd _ hdvd]
    exact Nat.mod_eq_zero_of_dvd (Nat.dvd_sub (Nat.dvd_add hpa hdvd) hva)

/-- The physical address of a page of the range. -/
lemma pageAt_eq (h : call.Proper) (n : Nat) : call.request.pageAt call.high (call.first + n) =
    (call.pa.toNat + n * call.size.bytes) % 2 ^ 64 := by
  have hfirst := h.first_eq
  have hlt := call.va.toNat_lt
  have hhigh : call.high = call.va.toNat / 2 ^ 48 * 2 ^ 48 := rfl
  show (call.high + (call.first + n) * windowOf call.size.level +
    (call.pa.toNat + 2 ^ 64 - call.va.toNat) % 2 ^ 64) % 2 ^ 64 = _
  rw [call.size.window_level, Nat.add_mul]
  omega

/-- The table of the root covers the whole range. -/
lemma first_add_count_le (h : call.Proper) (hpos : call.bytes ≠ 0) :
    call.first + call.count ≤ 512 ^ (3 + 1 - call.size.level) := by
  have hlevel := call.size.level_le
  have hspace : 2 ^ 48 = 512 ^ (3 + 1 - call.size.level) * call.size.bytes := by
    rw [← call.size.window_level, ← windowOf_eq (show call.size.level ≤ 3 + 1 by omega)]
    rfl
  have hfirst := h.first_eq
  have hbytes := h.bytes_eq
  have hbounds := h.bounds hpos
  have hmul : (call.first + call.count) * call.size.bytes ≤
      512 ^ (3 + 1 - call.size.level) * call.size.bytes := by
    rw [Nat.add_mul, ← hspace]
    omega
  exact Nat.le_of_mul_le_mul_right hmul call.size.bytes_pos

/-- Where the range starts, counted in pages. -/
lemma va_eq (h : call.Proper) :
    call.va.toNat = call.high + call.first * windowOf call.size.level := by
  have hhigh : call.high = call.va.toNat / 2 ^ 48 * 2 ^ 48 := rfl
  rw [call.size.window_level, h.first_eq]
  omega

lemma count_pos (h : call.Proper) (hpos : call.bytes ≠ 0) : 0 < call.count :=
  Nat.pos_of_ne_zero fun h0 => hpos (by rw [h.bytes_eq, h0, Nat.zero_mul])

/-- A page past the end of physical memory lies in a range that ends there. -/
lemma lt_of_pageAt (h : call.Proper) (hn : n < call.count)
    (hpage : 2 ^ 52 ≤ call.request.pageAt call.high (call.first + n)) :
    2 ^ 52 < call.pa.toNat + call.bytes := by
  have hbelow := Nat.mul_lt_mul_of_pos_right hn call.size.bytes_pos
  have hmod := Nat.mod_le (call.pa.toNat + n * call.size.bytes) (2 ^ 64)
  rw [h.pageAt_eq] at hpage
  rw [h.bytes_eq]
  omega

/-- The addresses of the first `n` pages of the range. -/
lemma slot_iff (h : call.Proper) (hn : n ≤ call.count) (hv : v.isCanonical = true) :
    call.first ≤ slotOf call.size.level v.toNat ∧ slotOf call.size.level v.toNat < call.first + n ↔
      call.va.toNat ≤ v.toNat ∧ v.toNat < call.va.toNat + n * call.size.bytes := by
  have hpos := call.size.bytes_pos
  have hfirst := h.first_eq
  have hbytes := h.bytes_eq
  have hle := Nat.mul_le_mul_right call.size.bytes hn
  have hlt := v.toNat_lt
  rw [Address.isCanonical_iff] at hv
  simp only [slotOf]
  rw [call.size.window_level, Nat.le_div_iff_mul_le hpos, Nat.div_lt_iff_lt_mul hpos, Nat.add_mul,
    hfirst]
  by_cases hempty : call.bytes = 0
  · omega
  · have hbounds := h.bounds hempty
    omega

/-- How far an address of the page `n` of the range lies behind the start of the range. -/
lemma sub_va_eq (h : call.Proper) (hcovers : call.Covers v)
    (hn : slotOf call.size.level v.toNat = call.first + n) :
    v.toNat - call.va.toNat = n * call.size.bytes + v.toNat % call.size.bytes := by
  have hfirst := h.first_eq
  have hbounds := h.bounds (by unfold Covers at hcovers; omega)
  have hdiv := Nat.div_add_mod (v.toNat % 2 ^ 48) call.size.bytes
  rw [Nat.mod_mod_of_dvd _ (call.size.bytes_dvd (by decide)), Nat.mul_comm] at hdiv
  have hslot : slotOf call.size.level v.toNat = v.toNat % 2 ^ 48 / call.size.bytes := by
    simp only [slotOf]
    rw [call.size.window_level]
  rw [← hslot, hn, Nat.add_mul, hfirst] at hdiv
  simp only [Covers] at hcovers
  omega

/-- What a mapped page holds for an address of the range. -/
lemma pageAt_add (h : call.Proper) (hv : v.isCanonical = true) (hcovers : call.Covers v)
    (hphys : call.pa.toNat + call.bytes ≤ 2 ^ 64) :
    call.request.pageAt call.high (slotOf call.size.level v.toNat) + v.toNat % call.size.bytes =
      call.pa.toNat + (v.toNat - call.va.toNat) := by
  obtain ⟨n, hn⟩ := Nat.exists_eq_add_of_le ((h.slot_iff (Nat.le_refl _) hv).2
    (h.bytes_eq ▸ hcovers)).1
  have hsub := h.sub_va_eq hcovers hn
  unfold Covers at hcovers
  rw [hn, h.pageAt_eq, hsub, Nat.mod_eq_of_lt (by omega), Nat.add_assoc]

end Proper

/-- A call is carried out by its request if it is proper, and stops with a fault if it is not. -/
lemma run_ends (call : MapCall) {space : AddressSpace} {s : σ} {E : Fault → Prop}
    {Q : Except MapError Unit → σ → Prop} (hbad : ∀ f, ¬call.Proper → E f)
    (hnone : call.Proper → call.bytes = 0 → Q (.ok ()) s)
    (hmap : call.Proper → call.bytes ≠ 0 → Attempt.Ends
      (AddressSpace.mapLevel call.request 3 space.root call.va.toNat) s E Q) :
    Attempt.Ends (call.run space) s E Q := by
  unfold MapCall.run AddressSpace.mapRange
  rw [Attempt.ends_bind_lift, Run.ends_require]
  split
  case isFalse hva => exact hbad _ fun h => hva h.va
  rename_i hva
  rw [Attempt.ends_bind_lift, Run.ends_require]
  split
  case isFalse hpa => exact hbad _ fun h => hpa h.pa
  rename_i hpa
  rw [Attempt.ends_bind_lift, Run.ends_require]
  split
  case isFalse hbytes => exact hbad _ fun h => hbytes h.bytes
  rename_i hbytes
  by_cases hempty : call.bytes = 0
  · rw [if_pos hempty]
    exact hnone ⟨hva, hpa, hbytes, fun h => absurd hempty h⟩ hempty
  · rw [if_neg hempty]
    dsimp only
    rw [Attempt.ends_bind_lift, Run.ends_require]
    split
    case isFalse hwrap => exact hbad _ fun h => hwrap (h.range hempty).1
    rename_i hwrap
    rw [Attempt.ends_bind_lift, Run.ends_require]
    split
    case isFalse hhalf => exact hbad _ fun h => hhalf (h.range hempty).2
    rename_i hhalf
    exact hmap ⟨hva, hpa, hbytes, fun _ => ⟨hwrap, hhalf⟩⟩ hempty

end MapCall

namespace TableView

variable {σ : Type} [TableStore σ] {V : TableView σ} {R : PhysicalAddress → Prop} {s s' : σ}
  {r : PhysicalAddress} {call : MapCall} {v : VirtualAddress} {n : Nat}

/-- The request of a proper call starts at the root and ends with the last page of the range. -/
lemma Forest.request_ends (hF : V.Forest R s) (hr : R r) (h : call.Proper) (hempty : call.bytes ≠ 0) :
    Attempt.Ends (AddressSpace.mapLevel call.request 3 r call.va.toNat) s
      (fun f => f = .fieldOverflow (2 ^ 40 - 1) ∧ 2 ^ 52 < call.pa.toNat + call.bytes)
      (Reached V R call.request call.high r call.first call.first (call.first + call.count) s) := by
  have hspan := h.spans hempty
  have hlevel := call.size.level_le
  have hleaf : call.request.leafLevel = call.size.level := rfl
  have hcount := h.count_pos hempty
  have hfits := h.first_add_count_le hempty
  have hroot : call.first / 512 ^ (3 + 1 - call.size.level) = 0 := Nat.div_eq_of_lt (by omega)
  have hends := hF.mapLevel_ends (t := r) hr hspan (show call.size.level ≤ 3 by omega)
    (Nat.le_refl 3) (by rw [hleaf, hroot]; rfl) (Nat.le_refl call.first) (by omega) (Or.inl rfl)
  rw [hleaf, hroot, Nat.zero_add, Nat.one_mul, Nat.sub_add_cancel (by omega), Nat.min_eq_left hfits,
    ← h.va_eq] at hends
  refine hends.mono (fun f ⟨hf, u, hfirst, hlast, hpage⟩ => ⟨hf, ?_⟩) fun _ _ hres => hres
  obtain ⟨n, rfl⟩ := Nat.exists_eq_add_of_le hfirst
  exact h.lt_of_pageAt (by omega) hpage

/-- A call that breaks the rules stops with a fault, and a proper one stops with a fault only where
physical memory ends. -/
theorem Forest.mapRange_ends (hF : V.Forest R s) (hr : R r) (call : MapCall) :
    Attempt.Ends (call.run ⟨r⟩) s
      (fun f => call.Proper → f = .fieldOverflow (2 ^ 40 - 1) ∧
        2 ^ 52 < call.pa.toNat + call.bytes)
      fun res s' => call.Proper ∧ Reached V R call.request call.high r call.first call.first
        (call.first + call.count) s res s' := by
  refine call.run_ends (fun f hbad h => absurd h hbad) (fun h hempty => ⟨h, hF, ?_⟩) fun h hempty => ?_
  · have hcount : call.count = 0 := by
      unfold MapCall.count
      rw [hempty, Nat.zero_div]
    rw [hcount]
    exact .refl s _
  · exact (hF.request_ends hr h hempty).mono (fun f hf _ => hf) fun res s' hres => ⟨h, hres⟩

/-- When the first `n` pages of a range were mapped, its first addresses are translated as the call
wants and all others as before. -/
lemma Painted.translated (h : Painted V R call.request call.high r call.first (call.first + n) s s')
    (hr : R r) (hproper : call.Proper) (hn : n ≤ call.count) (hv : v.isCanonical = true)
    (hphys : call.pa.toNat + call.bytes ≤ 2 ^ 64) :
    V.resolve s' r v.toNat 3 =
      if call.va.toNat ≤ v.toNat ∧ v.toNat < call.va.toNat + n * call.size.bytes then
        some (.ofNat (call.pa.toNat + (v.toNat - call.va.toNat)))
      else V.resolve s r v.toNat 3 := by
  have hslot := hproper.slot_iff hn hv
  rw [h.resolve r v.toNat hr]
  by_cases hin : call.va.toNat ≤ v.toNat ∧ v.toNat < call.va.toNat + n * call.size.bytes
  · have hle := Nat.mul_le_mul_right call.size.bytes hn
    have hbytes := hproper.bytes_eq
    have hadd := hproper.pageAt_add hv ⟨hin.1, by omega⟩ hphys
    rw [← call.size.window_level] at hadd
    rw [if_pos hin, if_pos ⟨rfl, hslot.2 hin⟩, ← hadd]
    rfl
  · rw [if_neg hin, if_neg fun h => hin (hslot.1 h.2)]

/-- However far a call got, an address outside its range or in another tree is translated as before. -/
lemma Reached.resolve_kept {res : Except MapError Unit} {q : PhysicalAddress}
    (h : Reached V R call.request call.high r call.first call.first (call.first + call.count) s res s')
    (hproper : call.Proper) (hq : R q) (hv : v.isCanonical = true) (hout : ¬(r = q ∧ call.Covers v)) :
    V.resolve s' q v.toNat 3 = V.resolve s q v.toNat 3 := by
  obtain ⟨d, hle, hstop, hpaint⟩ := h.exists_painted (Nat.le_add_right _ _)
  obtain ⟨n, rfl⟩ := Nat.exists_eq_add_of_le hle
  have hn : n ≤ call.count := Nat.le_of_add_le_add_left hstop
  rw [hpaint.resolve q v.toNat hq, if_neg]
  rintro ⟨rfl, hslot⟩
  have hcovers := (hproper.slot_iff hn hv).1 hslot
  have hle := Nat.mul_le_mul_right call.size.bytes hn
  rw [← hproper.bytes_eq] at hle
  exact hout ⟨rfl, hcovers.1, by omega⟩

/-- An address of the range is covered by an entry that maps its page. -/
lemma Painted.covered (h : Painted V R call.request call.high r call.first (call.first + n) s s')
    (hproper : call.Proper) (hn : n ≤ call.count) (hv : v.isCanonical = true)
    (hphys : call.pa.toNat + call.bytes ≤ 2 ^ 64)
    (hin : call.va.toNat ≤ v.toNat ∧ v.toNat < call.va.toNat + n * call.size.bytes) :
    ∃ e, V.entryOf s' r (3 - call.size.level) (slotOf call.size.level v.toNat) = some e ∧
      e.Maps (call.pa.toNat + (v.toNat - call.va.toNat) - v.toNat % call.size.bytes)
        call.flags.writable call.flags.user (decide (0 < call.size.level)) := by
  have hslot := (hproper.slot_iff hn hv).2 hin
  have hle := Nat.mul_le_mul_right call.size.bytes hn
  have hbytes := hproper.bytes_eq
  have hadd := hproper.pageAt_add hv ⟨hin.1, by omega⟩ hphys
  obtain ⟨e, he, hmaps⟩ := h.filled _ hslot.1 hslot.2
  refine ⟨e, he, ?_⟩
  rw [← hadd, Nat.add_sub_cancel]
  exact hmaps

end TableView

end KernelMemory
