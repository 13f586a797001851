import KernelMemory.Proofs.Heap.Exhaustion
import Mathlib.Data.List.Find
import Mathlib.Order.WellFounded

/-!
# Size classes

A free chunk is filed under the logarithm of its size rounded down, and the search for a request starts at
the logarithm rounded up.  So a chunk on any list that is searched is large enough, unless it is the last
list, which has no upper bound (`le_of_firstBucketFor_le`).  The search therefore takes the front of the
first list that is not empty, and looks at sizes on the last list only (`Found`).
-/

namespace KernelMemory

namespace Heap

variable {h : Heap} {S : Shape} {size m n : Nat} {b : Fin 16}

/-! ## Lists by size -/

lemma log2_le_log2 (hm : m ≠ 0) (hmn : m ≤ n) : m.log2 ≤ n.log2 :=
  (Nat.le_log2 (by omega)).2 ((Nat.log2_self_le hm).trans hmn)

lemma bucketOf_val (h8 : 8 ≤ n) : (bucketOf n).val = min (n.log2 - 3) 15 := by
  simp only [bucketOf, minBody, bucketOfLog_val]
  rw [Nat.max_eq_left h8]

/-- Larger bodies are filed no further down. -/
lemma bucketOf_mono (hmn : m ≤ n) : bucketOf m ≤ bucketOf n := by
  have hlog : (max m 8).log2 ≤ (max n 8).log2 := log2_le_log2 (by omega) (by omega)
  simp only [bucketOf, minBody, Fin.le_def, bucketOfLog_val]
  omega

lemma bucketOf_eq_iff (h8 : 8 ≤ n) (hb : b < 15) :
    bucketOf n = b ↔ 2 ^ (b.val + 3) ≤ n ∧ n < 2 ^ (b.val + 4) := by
  have hlow : 3 ≤ n.log2 := (Nat.le_log2 (by omega)).2 (by omega)
  have hlt : b.val < 15 := hb
  rw [← Nat.log2_eq_iff (by omega), Fin.ext_iff, bucketOf_val h8]
  omega

/-- The last list holds everything larger. -/
lemma bucketOf_eq_last_iff (h8 : 8 ≤ n) : bucketOf n = 15 ↔ 2 ^ 18 ≤ n := by
  rw [← Nat.le_log2 (by omega), Fin.ext_iff, bucketOf_val h8]
  show min (n.log2 - 3) 15 = 15 ↔ _
  omega

/-- What is filed where the search comes, but not on the last list, is large enough. -/
lemma le_of_firstBucketFor_le (h8 : 8 ≤ n) (hfirst : firstBucketFor size ≤ bucketOf n)
    (hlast : bucketOf n < 15) : size ≤ n := by
  by_contra hlt
  have hlog : n.log2 ≤ (max size 8 - 1).log2 := log2_le_log2 (by omega) (by omega)
  have hlow : 3 ≤ n.log2 := (Nat.le_log2 (by omega)).2 (by omega)
  have hval := bucketOf_val h8
  have hlast' : (bucketOf n).val < 15 := hlast
  simp only [firstBucketFor, minBody, Fin.le_def, bucketOfLog_val] at hfirst
  omega

/-! ## The search -/

/-- What the search for `size` bytes finds in a heap with the given free lists. -/
inductive Found (h : Heap) (lists : Fin 16 → List Nat) (size : Nat) : Option Nat → Prop
  /-- The front of the first list that is not empty, if there is one before the last list. -/
  | front {b : Fin 16} {x : Nat} (hfirst : firstBucketFor size ≤ b) (hlast : b < 15)
      (hempty : ∀ b', firstBucketFor size ≤ b' → b' < b → lists b' = [])
      (hx : (lists b).head? = some x) : Found h lists size (some x)
  /-- The first chunk of the last list that is large enough, or nothing. -/
  | last (hempty : ∀ b, firstBucketFor size ≤ b → b < 15 → lists b = []) :
      Found h lists size ((lists 15).find? fun x => size ≤ (h.tagAt x).size)

/-- The search passes over empty lists, in ascending order. -/
lemma Shape.fit_eq_of_empty (S : Shape) (hfirst : firstBucketFor size ≤ b)
    (hempty : ∀ b', firstBucketFor size ≤ b' → b' < b → S.lists b' = []) :
    ∃ bs : List (Fin 16), (∀ b' ∈ bs, b < b') ∧
      S.fit size = (S.lists b ++ bs.flatMap S.lists).find? fun x => size ≤ S.sizeAt x := by
  obtain ⟨before, behind, hbs⟩ := List.append_of_mem
    (show b ∈ (List.finRange 16).filter fun b => firstBucketFor size ≤ b by simpa using hfirst)
  have hsorted : (before ++ b :: behind).Pairwise (· < ·) :=
    hbs ▸ (List.pairwise_lt_finRange 16).sublist List.filter_sublist
  obtain ⟨-, hbehind, hbefore⟩ := List.pairwise_append.1 hsorted
  have hnone : before.flatMap S.lists = [] := by
    refine List.flatMap_eq_nil_iff.2 fun b' hb' => ?_
    have hmem : b' ∈ (List.finRange 16).filter fun b => firstBucketFor size ≤ b := by
      rw [hbs]
      exact List.mem_append_left _ hb'
    exact hempty b' (by simpa using hmem) (hbefore b' hb' b List.mem_cons_self)
  refine ⟨behind, (List.pairwise_cons.1 hbehind).1, ?_⟩
  simp only [Shape.fit]
  rw [hbs, List.flatMap_append, hnone, List.nil_append, List.flatMap_cons]

namespace HasShape

/-- The front of a list that is searched is large enough, if it is not the last list. -/
lemma fit_front (H : h.HasShape S) {x : Nat} (hfirst : firstBucketFor size ≤ b) (hlast : b < 15)
    (hempty : ∀ b', firstBucketFor size ≤ b' → b' < b → S.lists b' = [])
    (hx : (S.lists b).head? = some x) : S.fit size = some x := by
  obtain ⟨bs, -, hfit⟩ := S.fit_eq_of_empty hfirst hempty
  obtain ⟨xs, hxs⟩ := List.head?_eq_some_iff.1 hx
  obtain ⟨c, hc, rfl, -, rfl⟩ := H.listed b x (by rw [hxs]; exact List.mem_cons_self)
  have h8 : 8 ≤ c.size := (H.bounds hc).2.2.2.2.1
  have hsize : size ≤ S.sizeAt c.offset := by
    rw [H.sizeAt_eq hc]
    exact le_of_firstBucketFor_le h8 hfirst hlast
  rw [hfit, hxs, List.cons_append, List.find?_cons_of_pos (by simpa using hsize)]

/-- If there is nothing before the last list, all that is left is to look for a chunk on it. -/
lemma fit_last (H : h.HasShape S)
    (hempty : ∀ b, firstBucketFor size ≤ b → b < 15 → S.lists b = []) :
    S.fit size = (S.lists 15).find? fun x => size ≤ (h.tagAt x).size := by
  obtain ⟨bs, hbs, hfit⟩ := S.fit_eq_of_empty (Fin.le_last (firstBucketFor size)) hempty
  obtain rfl : bs = [] := List.eq_nil_iff_forall_not_mem.2 fun b hb =>
    absurd (hbs b hb) (Fin.not_lt.2 (Fin.le_last b))
  rw [hfit, List.flatMap_nil, List.append_nil]
  refine List.find?_congr fun x hx => ?_
  rw [(H.read_listed hx).2.2]

/-- The search goes by the lists, and by sizes on the last list only. -/
lemma found (H : h.HasShape S) (size : Nat) : Found h S.lists size (S.fit size) := by
  by_cases hempty : ∀ b, firstBucketFor size ≤ b → b < 15 → S.lists b = []
  · rw [H.fit_last hempty]
    exact .last hempty
  · push Not at hempty
    obtain ⟨b, ⟨hfirst, hlast, hne⟩, hleast⟩ := WellFounded.has_min (measure Fin.val).wf
      {b : Fin 16 | firstBucketFor size ≤ b ∧ b < 15 ∧ S.lists b ≠ []} hempty
    have hbefore : ∀ b', firstBucketFor size ≤ b' → b' < b → S.lists b' = [] := by
      intro b' hfirst' hlt
      by_contra hne'
      exact hleast b' ⟨hfirst', Nat.lt_trans hlt hlast, hne'⟩ hlt
    have hx := List.head?_eq_some_head hne
    rw [H.fit_front hfirst hlast hbefore hx]
    exact .front hfirst hlast hbefore hx

end HasShape

namespace Session

/-- Lists and sizes go together: the lists are in the order of the sizes on them, each holds the bodies
from one power of two up to the next, and what is on a list that is searched is large enough.  So in
whatever heap its callers have made, the search goes by the lists, and ends. -/
theorem findFit_found :
    (∀ m n, m ≤ n → bucketOf m ≤ bucketOf n) ∧
    (∀ n, 8 ≤ n → (∀ b : Fin 16, b < 15 →
      (bucketOf n = b ↔ 2 ^ (b.val + 3) ≤ n ∧ n < 2 ^ (b.val + 4))) ∧
      (bucketOf n = 15 ↔ 2 ^ 18 ≤ n)) ∧
    (∀ size n, 8 ≤ n → firstBucketFor size ≤ bucketOf n → bucketOf n < 15 → size ≤ n) ∧
    ∀ base limit memory h s, create base limit memory = .ok h → base + limit ≤ 2 ^ 64 → Reached h s →
      ∃ lists : Fin 16 → List Nat, (∀ b, (bucketChunks b).exec s.heap = .ok (lists b, s.heap)) ∧
        ∀ size, ∃ r, (findFit size).exec s.heap = .ok (r, s.heap) ∧ Found s.heap lists size r := by
  refine ⟨fun _ _ => bucketOf_mono, fun n h8 => ⟨fun b => bucketOf_eq_iff h8, bucketOf_eq_last_iff h8⟩,
    fun _ _ => le_of_firstBucketFor_le, fun base limit memory h s hcreate hfits hreached => ?_⟩
  obtain ⟨S, hs⟩ := hreached.sound (sound_create hcreate hfits)
  exact ⟨S.lists, hs.shape.bucketChunks_exec, fun size =>
    ⟨S.fit size, hs.shape.findFit_exec size, hs.shape.found size⟩⟩

/-- A body of 64 bytes and one of `2 ^ 19` are given back.  The first is found for a request of 24 bytes, to
which the search comes first, and the other on the last list. -/
theorem findFit_found_twice : ∃ h s lists, create 0x400000000000 0x100000 (.uniform 255) = .ok h ∧
    run [.request (.allocate 300000), .request (.allocate 8), .request (.allocate 40),
      .request (.allocate 8), .request (.free 0x400000000008), .request (.free 0x400000080020)]
      ⟨h, []⟩ = .ok s ∧
    (∀ b, (bucketChunks b).exec s.heap = .ok (lists b, s.heap)) ∧
    Found s.heap lists 24 (some 524316) ∧ Found s.heap lists 300000 (some 4) := by
  have hall : (match create 0x400000000000 0x100000 (.uniform 255) with
    | .ok h => match run [.request (.allocate 300000), .request (.allocate 8),
        .request (.allocate 40), .request (.allocate 8), .request (.free 0x400000000008),
        .request (.free 0x400000080020)] ⟨h, []⟩ with
      | .ok s => match (findFit 24).exec s.heap, (findFit 300000).exec s.heap with
        | .ok (r, _), .ok (r', _) => decide (r = some 524316 ∧ r' = some 4)
        | _, _ => false
      | .error _ => false
    | .error _ => false) = true := by decide +kernel
  split at hall
  case h_2 => cases hall
  rename_i h hcreate
  split at hall
  case h_2 => cases hall
  rename_i s hrun
  split at hall
  case h_2 => cases hall
  rename_i r h₁ r' h₂ hsmall hlarge
  obtain ⟨rfl, rfl⟩ := of_decide_eq_true hall
  obtain ⟨lists, hwalk, hfind⟩ := findFit_found.2.2.2 _ _ _ h s hcreate (by decide)
    (Reached.fresh.run hrun)
  obtain ⟨r, hexec, hfound⟩ := hfind 24
  obtain ⟨r', hexec', hfound'⟩ := hfind 300000
  obtain ⟨rfl, -⟩ := Prod.mk.inj (Except.ok.inj (hexec.symm.trans hsmall))
  obtain ⟨rfl, -⟩ := Prod.mk.inj (Except.ok.inj (hexec'.symm.trans hlarge))
  exact ⟨h, s, lists, hcreate, hrun, hwalk, hfound, hfound'⟩

end Session

end Heap

end KernelMemory
