import KernelMemory.Proofs.Paging.Pagewise
import KernelMemory.Proofs.Paging.Recording
import KernelMemory.Proofs.Paging.Spaces

/-!
# Ranges in pieces

A range of pages is cut in two behind its first `n` bytes.  Mapping the pieces one after the other comes to
the same as mapping the whole range: the pages of the range are those of the first piece followed by those
of the second one (`Proper.run_pieces`), wherever the cut lies in the windows of the tables above, and
wherever the request is stopped.
-/

namespace KernelMemory

open Paging (windowOf windowOf_pos slotOf)

namespace MapCall

variable {call : MapCall} {n : Nat}

/-- The first `n` bytes of a range. -/
def front (call : MapCall) (n : Nat) : MapCall :=
  { call with bytes := n }

/-- What lies behind the first `n` bytes of a range. -/
def back (call : MapCall) (n : Nat) : MapCall :=
  { call with
    va := .ofNat (call.va.toNat + n)
    bytes := call.bytes - n
    pa := .ofNat (call.pa.toNat + n) }

/-- Map the first `n` bytes of a range and, unless that was refused, the rest. -/
def runInTwo {σ : Type} [TableStore σ] (call : MapCall) (n : Nat) (space : AddressSpace) :
    Attempt MapError σ Unit := do
  (call.front n).run space
  (call.back n).run space

namespace Proper

/-- A range of whole pages that lies in one half of the addresses is proper. -/
lemma of_bounds (hva : call.va.isAligned call.size = true) (hpa : call.pa.isAligned call.size = true)
    (hbytes : call.bytes % call.size.bytes = 0)
    (hbounds : call.bytes ≠ 0 → call.va.toNat + call.bytes ≤ 2 ^ 47 ∨
      2 ^ 64 - 2 ^ 47 ≤ call.va.toNat ∧ call.va.toNat + call.bytes ≤ 2 ^ 64) : call.Proper := by
  refine ⟨hva, hpa, hbytes, fun hpos => ?_⟩
  have h := hbounds hpos
  have hlast : call.last < 2 ^ 64 := by
    simp only [last]
    omega
  rw [Address.isCanonical_iff, Address.isCanonical_iff, Address.toNat_ofNat, Nat.mod_eq_of_lt hlast,
    Nat.shiftRight_eq_div_pow, Nat.shiftRight_eq_div_pow]
  simp only [last] at *
  omega

lemma front (h : call.Proper) (hn : n % call.size.bytes = 0) (hle : n ≤ call.bytes) :
    (call.front n).Proper := by
  refine .of_bounds h.va h.pa hn fun hpos => ?_
  have hbounds := h.bounds (show call.bytes ≠ 0 by simp only [MapCall.front] at hpos; omega)
  simp only [MapCall.front] at *
  omega

lemma aligned_add {space : Space} {a : Address space} {size : PageSize} (ha : a.isAligned size = true)
    (hn : n % size.bytes = 0) : (Address.ofNat (a.toNat + n) : Address space).isAligned size = true := by
  have ha' : a.toNat % size.bytes = 0 := beq_iff_eq.1 ha
  refine beq_iff_eq.2 ?_
  rw [Address.toNat_ofNat, Nat.mod_mod_of_dvd _ (size.bytes_dvd (by decide)), Nat.add_mod, ha', hn]
  rfl

lemma back (h : call.Proper) (hn : n % call.size.bytes = 0) : (call.back n).Proper := by
  refine .of_bounds (aligned_add h.va hn) (aligned_add h.pa hn) ?_ fun hpos => ?_
  · exact Nat.mod_eq_zero_of_dvd (Nat.dvd_sub (Nat.dvd_of_mod_eq_zero h.bytes)
      (Nat.dvd_of_mod_eq_zero hn))
  · have hrest : call.bytes - n ≠ 0 := hpos
    have hbounds := h.bounds (by omega)
    simp only [MapCall.back]
    rw [Address.toNat_ofNat, Nat.mod_eq_of_lt (by omega)]
    omega

/-- The rest of a range continues it: it is mapped by the same request, and its pages come next. -/
lemma back_eq (h : call.Proper) (hn : n % call.size.bytes = 0) (hlt : n < call.bytes) :
    (call.back n).request = call.request ∧ (call.back n).high = call.high ∧
      (call.back n).first = call.first + n / call.size.bytes := by
  have hbounds := h.bounds (by omega)
  have hva : (call.back n).va.toNat = call.va.toNat + n := by
    show (Address.ofNat _ : VirtualAddress).toNat = _
    rw [Address.toNat_ofNat, Nat.mod_eq_of_lt (by omega)]
  have hpa : (call.back n).pa.toNat = (call.pa.toNat + n) % 2 ^ 64 := Address.toNat_ofNat _
  refine ⟨?_, ?_, ?_⟩
  · have hlast : (call.back n).last = call.last := by
      show (call.back n).va.toNat + (call.bytes - n - 1) = call.va.toNat + (call.bytes - 1)
      omega
    have hdelta : ((call.back n).pa.toNat + 2 ^ 64 - (call.back n).va.toNat) % 2 ^ 64 =
        (call.pa.toNat + 2 ^ 64 - call.va.toNat) % 2 ^ 64 := by
      rw [hva, hpa]
      omega
    simp only [request]
    rw [hlast, hdelta]
    rfl
  · show (call.back n).va.toNat / 2 ^ 48 * 2 ^ 48 = call.va.toNat / 2 ^ 48 * 2 ^ 48
    rw [hva]
    omega
  · -- both numbers of pages come to the same number of bytes
    have hfirst := h.first_eq
    have hback := (h.back hn).first_eq
    have hpages : n / call.size.bytes * call.size.bytes = n :=
      Nat.div_mul_cancel (Nat.dvd_of_mod_eq_zero hn)
    refine Nat.eq_of_mul_eq_mul_right call.size.bytes_pos ?_
    rw [Nat.add_mul, hpages]
    rw [hva] at hback
    have hsize : (call.back n).size = call.size := rfl
    rw [hsize] at hback
    omega

section

variable {σ : Type} [TableStore σ] {V : TableView σ} {R : PhysicalAddress → Prop} {s : σ}
  {r : PhysicalAddress}

/-- A range is mapped as its pieces are. -/
theorem run_pieces (h : call.Proper) (hF : V.Forest R s) (hr : R r) (hn : n % call.size.bytes = 0)
    (hle : n ≤ call.bytes) :
    (call.run ⟨r⟩).run.exec s = (call.runInTwo n ⟨r⟩).run.exec s := by
  have hfront := h.front hn hle
  have hback := h.back hn
  have hcount : call.count = (call.front n).count + (call.back n).count := by
    show call.bytes / call.size.bytes = n / call.size.bytes + (call.bytes - n) / call.size.bytes
    obtain ⟨pages, rfl⟩ := Nat.dvd_of_mod_eq_zero hn
    obtain ⟨rest, hrest⟩ := Nat.exists_eq_add_of_le hle
    rw [hrest, Nat.add_sub_cancel_left, Nat.mul_add_div call.size.bytes_pos,
      Nat.mul_div_cancel_left _ call.size.bytes_pos]
  have hfirst : (AddressSpace.mapPages call.request 3 r call.high call.first
      (call.front n).count).run.exec s = ((call.front n).run ⟨r⟩).run.exec s := by
    rw [hfront.run_eq hF hr]
    exact congrArg (fun x : Attempt MapError σ Unit => x.run.exec s)
      (AddressSpace.mapPages_last (call.front n).last _).symm
  rw [h.run_eq hF hr, hcount, AddressSpace.mapPages_add]
  refine Attempt.exec_bind_congr hfirst fun _ s' hexec => ?_
  rw [hfirst] at hexec
  have hF' := (Run.Ends.elim (hF.mapRange_ends hr (call.front n)) hexec).2.1
  rw [hback.run_eq hF' hr]
  rcases Nat.lt_or_eq_of_le hle with hlt | rfl
  · obtain ⟨hrequest, hhigh, hpages⟩ := h.back_eq hn hlt
    rw [hrequest, hhigh, hpages]
    rfl
  · have hnone : (call.back call.bytes).count = 0 := by
      show (call.bytes - call.bytes) / _ = 0
      rw [Nat.sub_self, Nat.zero_div]
    rw [hnone]
    rfl

end

end Proper

end MapCall

/-! ## Address spaces -/

namespace Spaces

variable {σ : Type} [TableStore σ] {V : TableView σ} {s s' : Spaces σ} {s₀ : σ}

/-- Whatever is done, the tables below the roots stay in order, if it comes to an end. -/
lemma forest_act (hF : V.Forest (· ∈ s.roots) s.store) {x : Act} (hx : s.act x = .ok s') :
    V.Forest (· ∈ s'.roots) s'.store := by
  cases x with
  | create =>
    obtain ⟨res, t, hexec, hres⟩ := hF.create_yields
    simp only [act, create] at hx
    rw [hexec] at hx
    cases res with
    | error e =>
      cases hx
      exact hF.grown hres.2.grown
    | ok space =>
      cases hx
      have hplanted := hres.2
      rwa [TableView.mem_roots_cons] at hplanted
  | map root call =>
    simp only [act, map] at hx
    by_cases hroot : root ∈ s.roots
    · rw [if_pos (List.contains_iff_mem.2 hroot)] at hx
      cases hexec : (call.run ⟨root⟩).run.exec s.store with
      | error f =>
        rw [hexec] at hx
        cases hx
      | ok r =>
        rw [hexec] at hx
        cases hx
        exact (Run.Ends.elim (hF.mapRange_ends hroot call) hexec).2.1
    · rw [if_neg (mt List.contains_iff_mem.1 hroot)] at hx
      cases hx
      exact hF

lemma forest_run (hF : V.Forest (· ∈ s.roots) s.store) {xs : List Act} (hxs : run xs s = .ok s') :
    V.Forest (· ∈ s'.roots) s'.store := by
  induction xs generalizing s with
  | nil =>
    cases hxs
    exact hF
  | cons x xs ih =>
    simp only [run] at hxs
    cases hx : s.act x with
    | error f =>
      rw [hx] at hxs
      cases hxs
    | ok s₁ =>
      rw [hx] at hxs
      exact ih (forest_act hF hx) hxs

end Spaces

/-- Mapping a range comes to the same as mapping its pieces one after the other: the answer, the answers of
the allocator in their order, and the state with all tables in it. -/
theorem mapRange_pieces {σ : Type} [TableStore σ] (V : TableView σ) {s₀ : σ} {acts : List Spaces.Act}
    {s : Spaces σ} {root : PhysicalAddress} {call : MapCall} {n : Nat} (hvalid : V.valid s₀)
    (hacts : Spaces.run acts ⟨s₀, []⟩ = .ok s) (hroot : root ∈ s.roots) (hproper : call.Proper)
    (hphys : call.pa.toNat + call.bytes ≤ 2 ^ 52) (hn : n % call.size.bytes = 0) (hle : n ≤ call.bytes) :
    ∃ res s' pages,
      (call.run ⟨root⟩).run.exec s.store = .ok (res, s') ∧
      (call.runInTwo n ⟨root⟩).run.exec s.store = .ok (res, s') ∧
      (call.run ⟨root⟩).run.exec (Recorded.start s.store) = .ok (res, ⟨s', pages⟩) ∧
      (call.runInTwo n ⟨root⟩).run.exec (Recorded.start s.store) = .ok (res, ⟨s', pages⟩) := by
  have hF : V.Forest (· ∈ s.roots) s.store := by
    refine Spaces.forest_run (s := ⟨s₀, []⟩) ?_ hacts
    simpa using TableView.Forest.none hvalid
  have hrecorded : V.recorded.Forest (· ∈ s.roots) (Recorded.start s.store) := hF.recorded
  obtain ⟨res, s', hexec, -⟩ := (hF.mapRange_ends hroot call).yields fun f hf => by
    have := (hf hproper).2
    omega
  -- the run on the store with a record is one on the store
  have hmirror : _ = (call.run ⟨root⟩).run.exec s.store :=
    Recorded.mirrors_call call ⟨root⟩ (Recorded.start s.store)
  rw [hexec] at hmirror
  cases hexec' : (call.run ⟨root⟩).run.exec (Recorded.start s.store) with
  | error f =>
    rw [hexec'] at hmirror
    cases hmirror
  | ok r =>
    obtain ⟨res', s'', pages⟩ := r
    rw [hexec'] at hmirror
    cases hmirror
    exact ⟨_, _, pages, hexec, (hproper.run_pieces hF hroot hn hle).symm.trans hexec, rfl,
      (hproper.run_pieces hrecorded hroot hn hle).symm.trans hexec'⟩

/-- Four small pages around the border of two windows.  The cut lies in front of the border, behind which
there is no page left for the last table. -/
theorem mapRange_pieces_exhausted : ∃ (s : Spaces Ram) (s' : Ram),
    Spaces.run [.create] ⟨.new 16 0x1000 0x5000 0xff, []⟩ = .ok s ∧
    (MapCall.run ⟨.size4K, .ofNat 0x1fe000, 0x4000, .ofNat 0x7000, .userRW⟩ ⟨.ofNat 0x1000⟩).run.exec
        (Recorded.start s.store) = .ok (.error (.outOfMemory 0),
          ⟨s', [some (.ofNat 0x2000), some (.ofNat 0x3000), some (.ofNat 0x4000), none]⟩) ∧
    (MapCall.runInTwo ⟨.size4K, .ofNat 0x1fe000, 0x4000, .ofNat 0x7000, .userRW⟩ 0x1000
        ⟨.ofNat 0x1000⟩).run.exec (Recorded.start s.store) = .ok (.error (.outOfMemory 0),
          ⟨s', [some (.ofNat 0x2000), some (.ofNat 0x3000), some (.ofNat 0x4000), none]⟩) := by
  have hrun : (match Spaces.run [.create] (⟨.new 16 0x1000 0x5000 0xff, []⟩ : Spaces Ram) with
    | .ok s => decide (.ofNat 0x1000 ∈ s.roots) &&
      match (MapCall.run ⟨.size4K, .ofNat 0x1fe000, 0x4000, .ofNat 0x7000, .userRW⟩
        ⟨.ofNat 0x1000⟩).run.exec (Recorded.start s.store) with
      | .ok (.error e, r) => decide (e = .outOfMemory 0 ∧
        r.pages = [some (.ofNat 0x2000), some (.ofNat 0x3000), some (.ofNat 0x4000), none])
      | _ => false
    | _ => false) = true := by decide +kernel
  split at hrun
  case h_2 => cases hrun
  rename_i s hacts
  obtain ⟨hroot, hrun⟩ := Bool.and_eq_true_iff.1 hrun
  split at hrun
  case h_2 => cases hrun
  rename_i e r hcall
  obtain ⟨rfl, hpages⟩ := of_decide_eq_true hrun
  have hvalid : Ram.Valid (.new 16 0x1000 0x5000 0xff) := by
    constructor <;> decide
  have hproper : MapCall.Proper ⟨.size4K, .ofNat 0x1fe000, 0x4000, .ofNat 0x7000, .userRW⟩ :=
    ⟨rfl, rfl, rfl, fun _ => by decide⟩
  obtain ⟨res, s', pages, -, -, hwhole, hpieces⟩ := mapRange_pieces (n := 0x1000) Ram.view hvalid hacts
    (of_decide_eq_true hroot) hproper (by decide) rfl (by decide)
  rw [hcall] at hwhole
  cases hwhole
  obtain rfl := hpages
  exact ⟨s, s', hacts, hcall, hpieces⟩

end KernelMemory
