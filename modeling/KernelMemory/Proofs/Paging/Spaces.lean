import KernelMemory.Proofs.Paging.Orderly

/-!
# Address spaces over one source of pages

Address spaces are created and ranges are mapped in them, in any order, with the pages for all tables from
one source.  Seen from outside, the tables are pages in memory with entries that link other pages.
`Spaces.IsTable` says which pages are tables and of which level, `Spaces.Links` which entry links which
table.  Every page handed out is a table of one level, and every table but a root has one entry that links
it, in a table of the next higher level (`Spaces.Orderly`): so the tables form a forest below the roots.
It only ever grows (`Spaces.Grows`).
-/

namespace KernelMemory

open Paging (entryIndex windowOf slotOf)

/-- A state in which page tables live, and the roots of the address spaces in it. -/
structure Spaces (σ : Type) where
  store : σ
  roots : List PhysicalAddress

namespace Spaces

variable {σ : Type} [TableStore σ]

/-- What a caller may do. -/
inductive Act where
  | create
  | map (root : PhysicalAddress) (call : MapCall)

/-- The act keeps the rules of mapping, and the physical range lies below `2 ^ 52`. -/
def Act.Proper : Act → Prop
  | create => True
  | map _ call => call.Proper ∧ call.pa.toNat + call.bytes ≤ 2 ^ 52

/-- Create an address space and enter its root. -/
def create (s : Spaces σ) : Checked (Spaces σ) := do
  match ← (AddressSpace.create : Attempt MapError σ _).run.exec s.store with
  | (.ok space, t) => return ⟨t, space.root :: s.roots⟩
  | (.error _, t) => return ⟨t, s.roots⟩

/-- Map a range in an address space that was created, no matter with what success. -/
def map (s : Spaces σ) (root : PhysicalAddress) (call : MapCall) : Checked (Spaces σ) :=
  if s.roots.contains root then do
    let (_, t) ← (call.run ⟨root⟩).run.exec s.store
    return ⟨t, s.roots⟩
  else return s

def act (s : Spaces σ) : Act → Checked (Spaces σ)
  | .create => s.create
  | .map root call => s.map root call

/-- Carry out several acts, one after the other. -/
def run : List Act → Spaces σ → Checked (Spaces σ)
  | [], s => return s
  | x :: xs, s => do run xs (← s.act x)

/-- The address is covered by a page that an entry of the given level maps. -/
def Covered (s : Spaces σ) (root : PhysicalAddress) (va : VirtualAddress) (level : Nat) : Prop :=
  ∃ e, (AddressSpace.entry ⟨root⟩ va level : Run σ _).exec s.store = .ok (some e, s.store) ∧
    e.IsPage level

section

variable (V : TableView σ) (s : Spaces σ)

/-- `t` is a table of the given level below one of the roots. -/
def IsTable (level : Nat) (t : PhysicalAddress) : Prop :=
  level ≤ 3 ∧ ∃ root ∈ s.roots, ∃ w, V.tableOf s.store root (3 - level) w = some t

/-- The entry `i` of the table `t` links `p` as a table of the given level. -/
def Links (level : Nat) (t : PhysicalAddress) (i : Fin 512) (p : PhysicalAddress) : Prop :=
  level < 3 ∧ s.IsTable V (level + 1) t ∧ (V.entryAt s.store t i).link? = some p

/-- The tables that were made since `s₀` form a forest below the roots, and their entries are in order. -/
structure Orderly (s₀ : σ) : Prop where
  /-- All pages that were handed out are tables. -/
  table_iff : ∀ p, V.owned s.store p ∧ ¬V.owned s₀ p ↔ ∃ level, s.IsTable V level p
  level_unique : ∀ p level level', s.IsTable V level p → s.IsTable V level' p → level = level'
  root : ∀ p ∈ s.roots, s.IsTable V 3 p ∧ ∀ level t i, ¬s.Links V level t i p
  /-- A table that is no root is linked by one entry of a table of the next level, and by no other. -/
  linked : ∀ p level, s.IsTable V level p → p ∉ s.roots → ∃ t i, s.Links V level t i p ∧
    ∀ level' t' i', s.Links V level' t' i' p → level' = level ∧ t' = t ∧ i' = i
  link : ∀ level t i p, s.Links V level t i p → (V.entryAt s.store t i).Links p
  large : ∀ level t i, s.IsTable V level t → (V.entryAt s.store t i).large = true →
    level = 1 ∨ level = 2
  page : ∀ level t i, s.IsTable V level t → (V.entryAt s.store t i).IsPage level →
    (V.entryAt s.store t i).address.toNat % windowOf level = 0

/-- From `s` to `s'` links stay, and addresses stay covered by pages of the same size. -/
structure Grows (s' : Spaces σ) : Prop where
  link : ∀ level t i p, s.Links V level t i p → s'.Links V level t i p
  covered : ∀ root ∈ s.roots, ∀ va, ∀ level ≤ 3, s.Covered root va level → s'.Covered root va level

end

variable {V : TableView σ} {s s' : Spaces σ} {s₀ : σ} {level : Nat} {t p : PhysicalAddress}
  {i : Fin 512}

/-! ## Pages and numbers -/

lemma exists_entryIndex (w : Nat) (i : Fin 512) : ∃ u, u / 512 = w ∧ entryIndex u = i := by
  have hi := i.isLt
  refine ⟨512 * w + i, by omega, Fin.ext ?_⟩
  show (512 * w + i.val) % 512 = i.val
  omega

lemma IsTable.exists_entry (h : s.IsTable V level t) (i : Fin 512) : ∃ root ∈ s.roots, ∃ u,
    V.tableOf s.store root (3 - level) (u / 512) = some t ∧ entryIndex u = i := by
  obtain ⟨-, root, hroot, w, ht⟩ := h
  obtain ⟨u, rfl, hi⟩ := exists_entryIndex w i
  exact ⟨root, hroot, u, ht, hi⟩

/-- An entry that links a table has the number of the table. -/
lemma links_iff : s.Links V level t i p ↔ level < 3 ∧ ∃ root ∈ s.roots, ∃ u,
    V.tableOf s.store root (3 - (level + 1)) (u / 512) = some t ∧ entryIndex u = i ∧
      V.tableOf s.store root (3 - level) u = some p := by
  refine and_congr_right fun hlt => ?_
  have hdepth : 3 - level = 3 - (level + 1) + 1 := by omega
  constructor
  · rintro ⟨htable, hlink⟩
    obtain ⟨root, hroot, u, ht, rfl⟩ := htable.exists_entry i
    refine ⟨root, hroot, u, ht, rfl, ?_⟩
    rw [hdepth, TableView.tableOf_succ, TableView.entryOf_of_table ht]
    exact hlink
  · rintro ⟨root, hroot, u, ht, rfl, hp⟩
    refine ⟨⟨by omega, root, hroot, _, ht⟩, ?_⟩
    rwa [hdepth, TableView.tableOf_succ, TableView.entryOf_of_table ht] at hp

/-! ## Looking for tables -/

/-- The tables that are found below the roots when the entries of those found before are read. -/
inductive Found (s : Spaces σ) : (level : Nat) → PhysicalAddress → Prop where
  | root {p : PhysicalAddress} (hp : p ∈ s.roots) : Found s 3 p
  | link {level : Nat} {t : PhysicalAddress} {i : Fin 512} {e : PageTableEntry}
    (ht : Found s (level + 1) t)
    (hread : (TableStore.readEntry t i : Run σ _).exec s.store = .ok (e, s.store))
    (htable : e.isTable = true) : Found s level e.address

/-- What is found are the tables of the forest, and all of them are found. -/
lemma found_iff (hF : V.Forest (· ∈ s.roots) s.store) : s.Found level p ↔ s.IsTable V level p := by
  constructor
  · intro h
    induction h with
    | root hp => exact ⟨Nat.le_refl 3, _, hp, 0, rfl⟩
    | @link level t i e ht hread htable ih =>
      obtain ⟨hlt, root, hroot, w, hw⟩ := ih
      rw [V.read s.store t i hF.valid (hF.owned root _ w t hroot (by omega) hw)] at hread
      obtain ⟨rfl, -⟩ := Prod.mk.inj (Except.ok.inj hread)
      have hlinks : s.Links V level t i (V.entryAt s.store t i).address :=
        ⟨by omega, ⟨hlt, root, hroot, w, hw⟩, TableView.link?_eq_some.2 ⟨htable, rfl⟩⟩
      obtain ⟨-, root', hroot', u, -, -, hu⟩ := links_iff.1 hlinks
      exact ⟨by omega, root', hroot', u, hu⟩
  · rintro ⟨hl, root, hroot, w, hw⟩
    -- from the root on, each table is read from the one above it
    obtain ⟨k, hk, rfl⟩ : ∃ k ≤ 3, level = 3 - k := ⟨3 - level, by omega, by omega⟩
    rw [show 3 - (3 - k) = k by omega] at hw
    clear hl
    induction k generalizing w p with
    | zero =>
      simp only [TableView.tableOf] at hw
      split at hw
      · obtain rfl := Option.some.inj hw
        exact .root hroot
      · cases hw
    | succ k ih =>
      simp only [TableView.tableOf] at hw
      obtain ⟨t, ht, hlink⟩ := Option.bind_eq_some_iff.1 hw
      obtain ⟨htable, rfl⟩ := TableView.link?_eq_some.1 hlink
      have hfound := ih _ (by omega) ht
      rw [show 3 - k = 3 - (k + 1) + 1 by omega] at hfound
      exact .link hfound (V.read s.store t _ hF.valid (hF.owned root k _ t hroot (by omega) ht)) htable

/-! ## The forest -/

lemma orderly_of (h : V.Orderly (· ∈ s.roots) s₀ s.store) : s.Orderly V s₀ := by
  have hunique := h.forest.unique
  have hfits : ∀ level t i, s.IsTable V level t → (V.entryAt s.store t i).Fits level := by
    intro level t i ht
    obtain ⟨root, hroot, u, hu, rfl⟩ := ht.exists_entry i
    have hentry := h.fits root _ u _ hroot (by omega) (TableView.entryOf_of_table hu)
    rwa [show 3 - (3 - level) = level by have := ht.1; omega] at hentry
  refine ⟨fun p => ?_, ?_, fun p hp => ⟨?_, ?_⟩, ?_, ?_, fun level t i ht => (hfits level t i ht).large,
    fun level t i ht => (hfits level t i ht).page⟩
  · rw [h.made]
    constructor
    · rintro ⟨root, k, w, hroot, hk, hp⟩
      exact ⟨3 - k, by omega, root, hroot, w, by rwa [show 3 - (3 - k) = k by omega]⟩
    · rintro ⟨level, -, root, hroot, w, hp⟩
      exact ⟨root, 3 - level, w, hroot, by omega, hp⟩
  · rintro p level level' ⟨hl, root, hroot, w, hp⟩ ⟨hl', root', hroot', w', hp'⟩
    obtain ⟨-, hdepth, -⟩ := hunique root root' _ _ w w' p hroot hroot' (by omega) (by omega) hp hp'
    omega
  · exact ⟨Nat.le_refl 3, p, hp, 0, rfl⟩
  · intro level t i hlinks
    obtain ⟨hlt, root, hroot, u, -, -, hu⟩ := links_iff.1 hlinks
    obtain ⟨-, hdepth, -⟩ := hunique p root 0 _ 0 u p hp hroot (by omega) (by omega) rfl hu
    omega
  · rintro p level ⟨hl, root, hroot, u, hu⟩ hnot
    have hlt : level < 3 := by
      refine Nat.lt_of_le_of_ne hl ?_
      rintro rfl
      -- the only table of the highest level is the root
      rw [Nat.sub_self] at hu
      simp only [TableView.tableOf] at hu
      split at hu
      · exact hnot (Option.some.inj hu ▸ hroot)
      · cases hu
    have hdepth : 3 - level = 3 - (level + 1) + 1 := by omega
    have hu' := hu
    rw [hdepth, TableView.tableOf] at hu'
    obtain ⟨t, ht, -⟩ := Option.bind_eq_some_iff.1 hu'
    refine ⟨t, entryIndex u, links_iff.2 ⟨hlt, root, hroot, u, ht, rfl, hu⟩, ?_⟩
    intro level' t' i' hlinks
    obtain ⟨hlt', root', hroot', u', ht', rfl, hp'⟩ := links_iff.1 hlinks
    obtain ⟨rfl, hdepth', rfl⟩ :=
      hunique root root' _ _ u u' p hroot hroot' (by omega) (by omega) hu hp'
    obtain rfl : level = level' := by omega
    exact ⟨rfl, Option.some.inj (ht'.symm.trans ht), rfl⟩
  · rintro level t i p ⟨hlt, ht, hlink⟩
    obtain ⟨htable, haddress⟩ := TableView.link?_eq_some.1 hlink
    obtain ⟨hpresent, hlarge⟩ := TableView.isTable_iff.1 htable
    obtain ⟨hwritable, huser⟩ := (hfits (level + 1) t i ht).link (Nat.succ_pos level) htable
    exact ⟨hpresent, hwritable, huser, hlarge, haddress⟩

lemma covered_iff (hF : V.Forest (· ∈ s.roots) s.store) {root : PhysicalAddress} (hroot : root ∈ s.roots)
    (hl : level ≤ 3) (va : VirtualAddress) : s.Covered root va level ↔
      ∃ e, V.entryOf s.store root (3 - level) (slotOf level va.toNat) = some e ∧ e.IsPage level := by
  refine exists_congr fun e => and_congr_left fun _ => ?_
  rw [hF.entry_exec hroot va hl]
  simp

lemma grows_of (hF : V.Forest (· ∈ s.roots) s.store) (hF' : V.Forest (· ∈ s'.roots) s'.store)
    (hroots : s.roots ⊆ s'.roots) (h : V.Extended (· ∈ s.roots) s.store s'.store) : s.Grows V s' := by
  constructor
  · intro level t i p hlinks
    obtain ⟨hlt, root, hroot, u, ht, hi, hp⟩ := links_iff.1 hlinks
    exact links_iff.2 ⟨hlt, root, hroots hroot, u, h.tables root _ _ t hroot (by omega) ht, hi,
      h.tables root _ _ p hroot (by omega) hp⟩
  · intro root hroot va level hl hcovered
    obtain ⟨e, he, hpage⟩ := (covered_iff hF hroot hl va).1 hcovered
    have hdepth : 3 - (3 - level) = level := by omega
    obtain ⟨e', he', hpage'⟩ := h.pages root _ _ e hroot (by omega) he (by rwa [hdepth])
    exact (covered_iff hF' (hroots hroot) hl va).2 ⟨e', he', by rwa [hdepth] at hpage'⟩

/-! ## Runs -/

/-- What comes after `s`. -/
structure Next (V : TableView σ) (s₀ : σ) (s s' : Spaces σ) : Prop where
  orderly : V.Orderly (· ∈ s'.roots) s₀ s'.store
  roots : s.roots ⊆ s'.roots
  extended : V.Extended (· ∈ s.roots) s.store s'.store

lemma act_next (h : V.Orderly (· ∈ s.roots) s₀ s.store) {x : Act} (hx : x.Proper) :
    ∃ s', s.act x = .ok s' ∧ Next V s₀ s s' := by
  cases x with
  | create =>
    obtain ⟨res, t, hexec, hres⟩ := h.forest.create_yields
    simp only [act, create]
    rw [hexec]
    cases res with
    | error e =>
      obtain ⟨-, hsame⟩ := hres
      exact ⟨_, rfl, h.unchanged hsame, List.Subset.refl _, h.forest.extended_grown hsame.grown⟩
    | ok space =>
      obtain ⟨hsupplied, -⟩ := hres
      have hplanted := h.planted hsupplied
      rw [TableView.mem_roots_cons] at hplanted
      exact ⟨_, rfl, hplanted, List.subset_cons_self _ _, h.forest.extended_grown hsupplied.grown⟩
  | map root call =>
    simp only [act, map]
    by_cases hroot : root ∈ s.roots
    · obtain ⟨hproper, hphys⟩ := hx
      obtain ⟨res, t, hexec, -, hreached⟩ := (h.forest.mapRange_ends hroot call).yields fun f hf => by
        have := (hf hproper).2
        omega
      obtain ⟨d, -, -, hpaint⟩ := hreached.exists_painted (Nat.le_add_right _ _)
      rw [if_pos (List.contains_iff_mem.2 hroot), hexec]
      exact ⟨_, rfl, h.steps call.size.level_le hpaint.steps, List.Subset.refl _, hpaint.extended⟩
    · rw [if_neg (mt List.contains_iff_mem.1 hroot)]
      exact ⟨s, rfl, h, List.Subset.refl _, .refl V _ _⟩

lemma run_next (h : V.Orderly (· ∈ s.roots) s₀ s.store) {xs : List Act} (hxs : ∀ x ∈ xs, x.Proper) :
    ∃ s', run xs s = .ok s' ∧ Next V s₀ s s' := by
  induction xs generalizing s with
  | nil => exact ⟨s, rfl, h, List.Subset.refl _, .refl V _ _⟩
  | cons x xs ih =>
    obtain ⟨hx, hxs⟩ := List.forall_mem_cons.1 hxs
    obtain ⟨s₁, hact, hs₁⟩ := act_next h hx
    obtain ⟨s₂, hrun, hs₂⟩ := ih hs₁.orderly hxs
    refine ⟨s₂, ?_, hs₂.orderly, List.Subset.trans hs₁.roots hs₂.roots,
      hs₁.extended.trans hs₂.extended fun r hr => hs₁.roots hr⟩
    simp only [run]
    rw [hact]
    exact hrun

/-- Whatever address spaces are created and whatever ranges are mapped, the pages handed out form a forest
of tables that are in order, and everything that follows only lets it grow. -/
theorem run_orderly (V : TableView σ) {s₀ : σ} (hvalid : V.valid s₀) (acts more : List Act)
    (hproper : ∀ x ∈ acts ++ more, x.Proper) :
    ∃ s s', run acts ⟨s₀, []⟩ = .ok s ∧ run more s = .ok s' ∧ s.Orderly V s₀ ∧ s.Grows V s' := by
  have hstart : V.Orderly (· ∈ ([] : List PhysicalAddress)) s₀ s₀ := by
    simpa using TableView.Orderly.none hvalid fun _ => Iff.rfl
  obtain ⟨hacts, hmore⟩ := List.forall_mem_append.1 hproper
  obtain ⟨s, hrun, hs⟩ := run_next (s := ⟨s₀, []⟩) hstart hacts
  obtain ⟨s', hrun', hs'⟩ := run_next hs.orderly hmore
  exact ⟨s, s', hrun, hrun', orderly_of hs.orderly,
    grows_of hs.orderly.forest hs'.orderly.forest hs'.roots hs'.extended⟩

/-- A small page in the first of two address spaces; then a large page that is refused because it would
replace a table, and a small page in the second one. -/
theorem run_orderly_twice : ∃ s s' : Spaces Ram,
    run [.create, .map (.ofNat 0x1000) ⟨.size4K, .ofNat 0x1000, 0x1000, .ofNat 0x5000, .kernelRW⟩, .create]
      ⟨.new 16 0x1000 0x9000 0xff, []⟩ = .ok s ∧
    run [.map (.ofNat 0x1000) ⟨.size2M, .ofNat 0, 0x200000, .ofNat 0, .userRW⟩,
      .map (.ofNat 0x5000) ⟨.size4K, .ofNat 0x1000, 0x1000, .ofNat 0x5000, .userRW⟩] s = .ok s' ∧
    s.roots = [.ofNat 0x5000, .ofNat 0x1000] ∧
    s.Orderly Ram.view (.new 16 0x1000 0x9000 0xff) ∧ s.Grows Ram.view s' := by
  have hvalid : Ram.Valid (.new 16 0x1000 0x9000 0xff) := by
    constructor <;> decide
  obtain ⟨s, s', hrun, hrun', horderly, hgrows⟩ := run_orderly Ram.view hvalid
    [.create, .map (.ofNat 0x1000) ⟨.size4K, .ofNat 0x1000, 0x1000, .ofNat 0x5000, .kernelRW⟩, .create]
    [.map (.ofNat 0x1000) ⟨.size2M, .ofNat 0, 0x200000, .ofNat 0, .userRW⟩,
      .map (.ofNat 0x5000) ⟨.size4K, .ofNat 0x1000, 0x1000, .ofNat 0x5000, .userRW⟩] (by
    simp only [List.cons_append, List.nil_append, List.forall_mem_cons]
    exact ⟨trivial, ⟨⟨rfl, rfl, rfl, fun _ => by decide⟩, by decide⟩, trivial,
      ⟨⟨rfl, rfl, rfl, fun _ => by decide⟩, by decide⟩, ⟨⟨rfl, rfl, rfl, fun _ => by decide⟩, by decide⟩,
      fun _ h => absurd h List.not_mem_nil⟩)
  have hroots : (match run [.create,
      .map (.ofNat 0x1000) ⟨.size4K, .ofNat 0x1000, 0x1000, .ofNat 0x5000, .kernelRW⟩, .create]
        (⟨.new 16 0x1000 0x9000 0xff, []⟩ : Spaces Ram) with
    | .ok s => decide (s.roots = [.ofNat 0x5000, .ofNat 0x1000])
    | .error _ => false) = true := by decide +kernel
  rw [hrun] at hroots
  exact ⟨s, s', hrun, hrun', of_decide_eq_true hroots, horderly, hgrows⟩

end Spaces

end KernelMemory
