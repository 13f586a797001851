import KernelMemory.Proofs.Heap.Shape

/-!
# Filing free chunks

The free lists of a heap lie in the bodies of the free chunks.  This file says what the list
operations do to the shape of a heap: `pushFree` puts a chunk in front of the list of its size and
`detach` takes a listed chunk out, wherever it stands.  Both write link words of free chunks only, so
no tag changes and no byte that the heap's chunks are clear of.

The key fact is `HasShape.relist`: as long as only link words of free chunks change, all that is left
to show of the new shape concerns the lists.
-/

namespace KernelMemory

namespace Heap

/-- The lists with a chunk more in front of the list of its size. -/
def filed (lists : Fin 16 → List Nat) (c : Chunk) : Fin 16 → List Nat :=
  Function.update lists (bucketOf c.size) (c.offset :: lists (bucketOf c.size))

/-- The lists with a chunk taken out of the list of its size. -/
def unfiled (lists : Fin 16 → List Nat) (c : Chunk) : Fin 16 → List Nat :=
  Function.update lists (bucketOf c.size) ((lists (bucketOf c.size)).erase c.offset)

variable {h h' : Heap} {S : Shape} {c d : Chunk} {K : Nat → Prop}

section Lists

variable {lists : Fin 16 → List Nat} {b : Fin 16} {x : Nat}

lemma mem_filed_self : c.offset ∈ filed lists c (bucketOf c.size) := by
  simp [filed]

lemma mem_filed (hx : x ∈ lists b) : x ∈ filed lists c b := by
  simp only [filed]
  by_cases hb : b = bucketOf c.size
  · subst hb
    simp [hx]
  · rwa [Function.update_of_ne hb]

lemma mem_unfiled (hx : x ∈ lists b) (hne : x ≠ c.offset) : x ∈ unfiled lists c b := by
  simp only [unfiled]
  by_cases hb : b = bucketOf c.size
  · subst hb
    rw [Function.update_self]
    exact (List.mem_erase_of_ne hne).2 hx
  · rwa [Function.update_of_ne hb]

/-- A chunk that was filed stands in front of its list. -/
lemma unfiled_filed : unfiled (filed lists c) c = lists := by
  simp [unfiled, filed]

/-- What is on a list once is between two parts without it, which are left when it is erased. -/
lemma erase_middle {xs ys : List Nat} (hnd : (xs ++ x :: ys).Nodup) :
    x ∉ xs ∧ x ∉ ys ∧ (xs ++ x :: ys).erase x = xs ++ ys := by
  have hx : x ∉ xs := fun hx => (List.nodup_append.1 hnd).2.2 _ hx _ List.mem_cons_self rfl
  have hy : x ∉ ys := (List.nodup_cons.1 (List.nodup_append.1 hnd).2.1).1
  exact ⟨hx, hy, by rw [List.erase_append_right _ hx, List.erase_cons_head]⟩

/-- When a chunk is taken out, all others stay listed. -/
lemma Shape.Settled.mem_unfiled {pre post : List Chunk} {stop : Nat}
    (hS : Shape.Settled ⟨pre ++ c :: post, lists, stop⟩) (hd : d ∈ pre ++ post)
    (hfree : d.occupied = false) : d.offset ∈ unfiled lists c (bucketOf d.size) := by
  refine Heap.mem_unfiled (hS.filed d ?_ hfree) (hS.tiles.packed.offset_ne hd)
  simp only [List.mem_append, List.mem_cons] at hd ⊢
  tauto

/-- What is in front of a chunk and behind it is listed. -/
lemma Shape.Settled.filed_middle {pre post : List Chunk} {stop : Nat}
    (hS : Shape.Settled ⟨pre ++ c :: post, lists, stop⟩) :
    ∀ d ∈ pre ++ post, d.occupied = false → d.offset ∈ lists (bucketOf d.size) :=
  fun d hd => hS.filed d (by
    simp only [List.mem_append, List.mem_cons] at hd ⊢
    tauto)

end Lists

/-! ## Link words -/

lemma prevLink_exec {x : Nat} (hx : x % 4 = 0) (hx' : x + 8 ≤ h.limit) (hl : h.limit ≤ 2 ^ 30) :
    (prevLink x).exec h = .ok (h.wordAt (x + 4), h) := by
  simp only [prevLink]
  rw [Run.exec_bind, Run.exec_monadLift, addOffset_of_lt (by simp only [tagSize]; omega)]
  exact readWord_exec (show (x + 4) % 4 = 0 by omega) (show x + 4 < h.limit by omega)

lemma nextLink_exec {x : Nat} (hx : x % 4 = 0) (hx' : x + 12 ≤ h.limit) (hl : h.limit ≤ 2 ^ 30) :
    (nextLink x).exec h = .ok (h.wordAt (x + 8), h) := by
  simp only [nextLink]
  rw [Run.exec_bind, Run.exec_monadLift, addOffset_of_lt (by simp only [tagSize]; omega)]
  exact readWord_exec (show (x + 8) % 4 = 0 by omega) (show x + 8 < h.limit by omega)

lemma setPrevLink_exec {x v : Nat} (hx : x % 4 = 0) (hx' : x + 8 ≤ h.limit)
    (hl : h.limit ≤ 2 ^ 30) : (setPrevLink x v).exec h = .ok ((), h.putWord (x + 4) v) := by
  simp only [setPrevLink]
  rw [Run.exec_bind, Run.exec_monadLift, addOffset_of_lt (by simp only [tagSize]; omega)]
  exact writeWord_exec (show (x + 4) % 4 = 0 by omega) (show x + 4 < h.limit by omega)

lemma setNextLink_exec {x v : Nat} (hx : x % 4 = 0) (hx' : x + 12 ≤ h.limit)
    (hl : h.limit ≤ 2 ^ 30) : (setNextLink x v).exec h = .ok ((), h.putWord (x + 8) v) := by
  simp only [setNextLink]
  rw [Run.exec_bind, Run.exec_monadLift, addOffset_of_lt (by simp only [tagSize]; omega)]
  exact writeWord_exec (show (x + 8) % 4 = 0 by omega) (show x + 8 < h.limit by omega)

namespace HasShape

/-- If no word but link words of free chunks changes, the tags stay, and the new shape is right as
soon as its lists are. -/
lemma relist {lists : Fin 16 → List Nat} (H : h.HasShape S) (hbase : h'.base = h.base)
    (hlimit : h'.limit = h.limit) (hcurrent : h'.currentSize = h.currentSize)
    (hword : ∀ j, j % 4 = 0 → j + 4 ≤ h.limit →
      (∀ c ∈ S.chunks, c.occupied = false → j ≠ c.offset + 4 ∧ j ≠ c.offset + 8) →
      h'.wordAt j = h.wordAt j)
    (head : ∀ b : Fin 16, h'.buckets[b] = (lists b).headD 0)
    (chained : ∀ b, h'.Chained 0 (lists b) 0)
    (listed : ∀ b, ∀ x ∈ lists b,
      ∃ c ∈ S.chunks, c.offset = x ∧ c.occupied = false ∧ bucketOf c.size = b)
    (nodup : ∀ b, (lists b).Nodup) : h'.HasShape { S with lists } := by
  -- no tag is a link word, because the tags of a chunk enclose its link words
  have htag : ∀ j, j % 4 = 0 → j + 4 ≤ h.limit →
      (∀ c ∈ S.chunks, c.occupied = false → j ≠ c.offset + 4 ∧ j ≠ c.offset + 8) →
      h'.tagAt j = h.tagAt j := by
    intro j hj hj' hlink
    simp only [tagAt]
    rw [hword j hj hj' hlink]
  refine
    { window := ⟨by rw [hbase]; exact H.window.aligned, by rw [hlimit]; exact H.window.limit_le,
        by rw [hbase, hlimit]; exact H.window.fits⟩, current := hcurrent.trans H.current,
      stop_le := by rw [hlimit]; exact H.stop_le, sentinel := ?_, packed := H.packed,
      front := ?_, back := ?_, head := head, chained := chained, listed := listed, nodup := nodup }
  · by_cases hs : 4 ≤ h.limit
    · rw [htag 0 rfl hs fun c hc _ => by omega, H.sentinel]
    · have hstop := H.stop_le
      have hpacked := H.packed.le
      omega
  · intro c hc
    have hcb := H.bounds hc
    rw [htag _ (by omega) (by omega) fun d hd _ => ?_, H.front c hc]
    have hdb := H.bounds hd
    rcases H.packed.apart hc hd with rfl | hlt | hlt <;> omega
  · intro c hc
    have hcb := H.bounds hc
    rw [htag _ (by omega) (by omega) fun d hd _ => ?_, H.back c hc]
    have hdb := H.bounds hd
    rcases H.packed.apart hc hd with rfl | hlt | hlt <;> omega

/-- As `relist`, when only the list of the bucket `b` changes. -/
lemma relist_one (H : h.HasShape S) {b : Fin 16} {l : List Nat} (hbase : h'.base = h.base)
    (hlimit : h'.limit = h.limit) (hcurrent : h'.currentSize = h.currentSize)
    (hword : ∀ j, j % 4 = 0 → j + 4 ≤ h.limit →
      (∀ c ∈ S.chunks, c.occupied = false → j ≠ c.offset + 4 ∧ j ≠ c.offset + 8) →
      h'.wordAt j = h.wordAt j)
    (hhead : h'.buckets[b] = l.headD 0)
    (hheads : ∀ b' : Fin 16, b' ≠ b → h'.buckets[b'] = h.buckets[b'])
    (hchained : h'.Chained 0 l 0)
    (hlinks : ∀ b', b' ≠ b → ∀ z ∈ S.lists b',
      h'.wordAt (z + 4) = h.wordAt (z + 4) ∧ h'.wordAt (z + 8) = h.wordAt (z + 8))
    (hlisted : ∀ x ∈ l, ∃ c ∈ S.chunks, c.offset = x ∧ c.occupied = false ∧ bucketOf c.size = b)
    (hnodup : l.Nodup) : h'.HasShape { S with lists := Function.update S.lists b l } := by
  refine H.relist hbase hlimit hcurrent hword ?_ ?_ ?_ ?_
  · exact (Function.forall_update_iff S.lists fun b' l => h'.buckets[b'] = l.headD 0).2
      ⟨hhead, fun b' hb' => (hheads b' hb').trans (H.head b')⟩
  · exact (Function.forall_update_iff S.lists fun b' l => h'.Chained 0 l 0).2
      ⟨hchained, fun b' hb' => (H.chained b').congr (hlinks b' hb')⟩
  · exact (Function.forall_update_iff S.lists fun b' l => ∀ z ∈ l, ∃ c ∈ S.chunks,
      c.offset = z ∧ c.occupied = false ∧ bucketOf c.size = b').2 ⟨hlisted, fun b' _ => H.listed b'⟩
  · exact (Function.forall_update_iff S.lists fun _ l => l.Nodup).2
      ⟨hnodup, fun b' _ => H.nodup b'⟩

/-- The link words of a listed chunk are words of the window. -/
lemma bounds_of_listed (H : h.HasShape S) {b : Fin 16} {x : Nat} (hx : x ∈ S.lists b) :
    4 ≤ x ∧ x % 8 = 4 ∧ x + 16 ≤ S.stop := by
  obtain ⟨c, hc, rfl, -, -⟩ := H.listed b x hx
  have := H.bounds hc
  omega

/-- A chunk is on one list only. -/
lemma bucket_unique (H : h.HasShape S) {b b' : Fin 16} {x : Nat} (hx : x ∈ S.lists b)
    (hx' : x ∈ S.lists b') : b = b' := by
  obtain ⟨c, hc, rfl, -, hb⟩ := H.listed b x hx
  exact hb.symm.trans (H.free_of_listed hc hx').2

end HasShape

/-- `K` has no byte of the links of a listed chunk. -/
def LinksClear (lists : Fin 16 → List Nat) (base : Nat) (K : Nat → Prop) : Prop :=
  ∀ b, ∀ x ∈ lists b, Avoids K (base + (x + 4)) (base + (x + 12))

/-- Bytes that are clear of the chunks are clear of their links. -/
lemma HasShape.linksClear (H : h.HasShape S) {base : Nat} (hK : ∀ c ∈ S.chunks, c.Clear base K) :
    LinksClear S.lists base K := by
  intro b x hx a ha
  obtain ⟨c, hc, rfl, hfree, -⟩ := H.listed b x hx
  have hout := (hK c hc).avoids hfree a ha
  have hbounds := H.bounds hc
  omega

/-! ## Putting a chunk in front of its list -/

/-- The words that change when the chunk at `x` is put in front of the list that starts with `y`. -/
def pushWords (x y : Nat) : List (Nat × Nat) :=
  (x + 4, 0) :: (x + 8, y) :: if y = 0 then [] else [(y + 4, x)]

/-- All words that a chunk put in front of a list changes are links of the chunk and of the old front. -/
lemma keeps_pushWords {x y : Nat} (hx : Avoids K (h.base + (x + 4)) (h.base + (x + 12)))
    (hy : y ≠ 0 → Avoids K (h.base + (y + 4)) (h.base + (y + 12))) :
    Keeps K h (h.putWords (pushWords x y)) := by
  refine keeps_putWords fun w hw a ha => ?_
  have hxa := hx a ha
  simp only [pushWords, List.mem_cons] at hw
  rcases hw with rfl | rfl | hw
  · omega
  · omega
  · by_cases hy0 : y = 0
    · simp [hy0] at hw
    · have hya := hy hy0 a ha
      rw [if_neg hy0, List.mem_singleton] at hw
      subst hw
      omega

lemma pushFree_exec {x y size : Nat} (hx : x % 4 = 0) (hx' : x + 12 ≤ h.limit)
    (hy : y % 4 = 0) (hy' : y = 0 ∨ y + 12 ≤ h.limit) (hl : h.limit ≤ 2 ^ 30)
    (hsize : (h.tagAt x).size = size) (hhead : h.buckets[bucketOf size] = y) :
    (pushFree x).exec h = .ok ((), { h.putWords (pushWords x y) with
      buckets := h.buckets.set (bucketOf size) x }) := by
  subst hsize
  simp only [pushFree, listHead]
  simp only [Run.exec_bind, readTag_exec hx (show x < h.limit by omega), Run.exec_get, Except.bind,
    hhead, setPrevLink_exec hx (show x + 8 ≤ h.limit by omega) hl]
  rw [setNextLink_exec hx (show x + 12 ≤ (h.putWord (x + 4) 0).limit by simpa) (by simpa)]
  simp only [pushWords]
  by_cases hy0 : y = 0
  · simp [hy0]
  · simp only [ne_eq, hy0, not_false_eq_true, if_true, if_false, Run.exec_bind]
    rw [setPrevLink_exec hy (by simp; omega) (by simpa)]
    simp [Except.bind]

namespace HasShape

/-- The front of a list is nothing or a listed chunk. -/
lemma head_cases (S : Shape) (b : Fin 16) :
    (S.lists b).headD 0 = 0 ∨ (S.lists b).headD 0 ∈ S.lists b := by
  cases S.lists b with
  | nil => exact Or.inl rfl
  | cons z zs => exact Or.inr List.mem_cons_self

/-- The words after a chunk was put in front of a list. -/
lemma wordAt_pushWords (hw : h.Window) {x y j : Nat} (hx : x % 4 = 0) (hx' : x + 12 ≤ h.limit)
    (hy : y = 0 ∨ y % 4 = 0 ∧ y + 12 ≤ h.limit) (hj : j % 4 = 0) (hj' : j + 4 ≤ h.limit) :
    (h.putWords (pushWords x y)).wordAt j =
      if y ≠ 0 ∧ j = y + 4 then x else if j = x + 8 then y else if j = x + 4 then 0
      else h.wordAt j := by
  have hl := hw.limit_le
  simp only [maxSize] at hl
  by_cases hy0 : y = 0
  · have hws : pushWords x y = [(x + 4, 0), (x + 8, 0)] := by simp [pushWords, hy0]
    rw [hws, wordAt_putWords hw (by simp; omega) hj hj']
    simp [hy0]
  · have hws : pushWords x y = [(x + 4, 0), (x + 8, y), (y + 4, x)] := by simp [pushWords, hy0]
    rw [hws, wordAt_putWords hw (by simp; omega) hj hj']
    simp [hy0]

/-- Where a listed chunk or the end of a list may be. -/
lemma bounds_of_head (H : h.HasShape S) {b : Fin 16} {y : Nat} (hy : (S.lists b).headD 0 = y) :
    y = 0 ∨ y ∈ S.lists b ∧ 4 ≤ y ∧ y % 8 = 4 ∧ y + 16 ≤ S.stop := by
  subst hy
  rcases head_cases S b with hy | hy
  · exact Or.inl hy
  · exact Or.inr ⟨hy, H.bounds_of_listed hy⟩

/-- Putting an unlisted free chunk in front of its list. -/
lemma pushed (H : h.HasShape S) (hc : c ∈ S.chunks) (hfree : c.occupied = false)
    (hnew : ∀ b, c.offset ∉ S.lists b) {b : Fin 16} {x y : Nat} (hb : bucketOf c.size = b)
    (hx : c.offset = x) (hy : (S.lists b).headD 0 = y) :
    HasShape { h.putWords (pushWords x y) with buckets := h.buckets.set b x }
      { S with lists := Function.update S.lists b (x :: S.lists b) } := by
  obtain ⟨hx4, hxs, hxm, -, hsz, hstop, hlim, -⟩ := H.bounds hc
  rw [hx] at hx4 hxs hxm
  have hyb := H.bounds_of_head hy
  set h' : Heap := { h.putWords (pushWords x y) with buckets := h.buckets.set b x }
  have hword : ∀ j, j % 4 = 0 → j + 4 ≤ h.limit → h'.wordAt j =
      if y ≠ 0 ∧ j = y + 4 then x else if j = x + 8 then y else if j = x + 4 then 0
      else h.wordAt j := by
    intro j hj hj'
    show (h.putWords (pushWords x y)).wordAt j = _
    exact wordAt_pushWords H.window (by omega) (by omega) (by omega) hj hj'
  -- chunks that are listed already are not the new one
  have hlisted : ∀ b', ∀ z ∈ S.lists b', z ≠ x ∧ z % 8 = 4 ∧ z + 16 ≤ S.stop :=
    fun b' z hz => ⟨fun hzx => hnew b' (by rwa [hx, ← hzx]), (H.bounds_of_listed hz).2⟩
  have hnext : ∀ b', ∀ z ∈ S.lists b', h'.wordAt (z + 8) = h.wordAt (z + 8) := by
    intro b' z hz
    have := hlisted b' z hz
    rw [hword _ (by omega) (by omega), if_neg (by omega), if_neg (by omega), if_neg (by omega)]
  have hprev : ∀ b', ∀ z ∈ S.lists b', z ≠ y → h'.wordAt (z + 4) = h.wordAt (z + 4) := by
    intro b' z hz hzy
    have := hlisted b' z hz
    rw [hword _ (by omega) (by omega), if_neg (by omega), if_neg (by omega), if_neg (by omega)]
  have hbase : h'.base = h.base := putWords_base h (pushWords x y)
  have hlimit : h'.limit = h.limit := putWords_limit h (pushWords x y)
  have hcurrent : h'.currentSize = h.currentSize := putWords_currentSize h (pushWords x y)
  refine H.relist_one hbase hlimit hcurrent ?_ ?_ ?_ ?_ ?_ ?_ ?_
  · intro j hj hj' hlink
    have hjx := hlink c hc hfree
    rw [hword j hj hj', if_neg, if_neg (by omega), if_neg (by omega)]
    rintro ⟨hy0, rfl⟩
    obtain ⟨d, hd, hdy, hdfree, -⟩ := H.listed b y (hyb.resolve_left hy0).1
    have := hlink d hd hdfree
    omega
  · show (h.buckets.set b x)[b] = x
    simp
  · intro b' hb'
    have hne : (b : Nat) ≠ b' := fun heq => hb' (Fin.ext heq.symm)
    show (h.buckets.set b x)[b'] = _
    simp [hne]
  · have hxy : y = 0 ∨ y ≠ x := hyb.imp_right fun hmem => (hlisted b y hmem.1).1
    rw [← hy] at hprev
    refine (H.chained b).cons (H.nodup b) ?_ ?_ ?_ (hprev b) (hnext b)
    · rw [hword _ (by omega) (by omega), if_neg (by omega), if_neg (by omega), if_pos rfl]
    · rw [hword _ (by omega) (by omega), if_neg (by omega), if_pos rfl, hy]
    · intro z hz hzy
      have := hlisted b z hz
      have hzy' : z = y := hzy.trans hy
      rw [hword _ (by omega) (by omega), if_pos (by omega)]
  · -- the old front of the list is on no other list
    intro b' hb' z hz
    refine ⟨hprev b' z hz fun hzy => ?_, hnext b' z hz⟩
    have hz4 := H.bounds_of_listed hz
    have hymem := (hyb.resolve_left (by omega)).1
    exact hb' (H.bucket_unique hz (hzy ▸ hymem))
  · exact List.forall_mem_cons.2 ⟨⟨c, hc, hx, hfree, hb⟩, H.listed b⟩
  · exact List.nodup_cons.2 ⟨by rw [← hx]; exact hnew b, H.nodup b⟩

/-- The words that `pushFree` writes in a heap with a shape. -/
lemma pushFree_writes (H : h.HasShape S) (hc : c ∈ S.chunks) :
    (pushFree c.offset).exec h = .ok ((),
      { h.putWords (pushWords c.offset ((S.lists (bucketOf c.size)).headD 0)) with
        buckets := h.buckets.set (bucketOf c.size) c.offset }) := by
  obtain ⟨-, hxs, hxm, -, hsz, hstop, hlim, -⟩ := H.bounds hc
  have hyb := H.bounds_of_head (b := bucketOf c.size) rfl
  have hsize : (h.tagAt c.offset).size = c.size := by rw [H.front c hc, H.tag_size hc]
  exact pushFree_exec (by omega) (by omega) (by omega) (by omega) hlim hsize (H.head _)

/-- `pushFree` files an unlisted free chunk, and touches nothing but links. -/
theorem pushFree_links (H : h.HasShape S) (hc : c ∈ S.chunks) (hfree : c.occupied = false)
    (hnew : ∀ b, c.offset ∉ S.lists b) :
    (pushFree c.offset).Yields h fun _ h' => h'.HasShape { S with lists := filed S.lists c } ∧
      ∀ K, LinksClear (filed S.lists c) h.base K → Keeps K h h' := by
  have hyb := H.bounds_of_head (b := bucketOf c.size) rfl
  rw [Run.yields_of_exec (H.pushFree_writes hc)]
  refine ⟨H.pushed hc hfree hnew rfl rfl rfl, fun K hK => ?_⟩
  have hput : Keeps K h (h.putWords (pushWords c.offset ((S.lists (bucketOf c.size)).headD 0))) :=
    keeps_pushWords (hK _ _ mem_filed_self) fun hy0 => hK _ _ (mem_filed (hyb.resolve_left hy0).1)
  exact ⟨hput.base, hput.limit, hput.byte⟩

end HasShape

/-! ## Taking a chunk out of its list -/

/-- The words that change when a chunk between `p` and `n` is taken out of its list. -/
def detachWords (p n : Nat) : List (Nat × Nat) :=
  (if p = 0 then [] else [(p + 8, n)]) ++ if n = 0 then [] else [(n + 4, p)]

/-- All words that a chunk taken out of a list changes are links of the chunks beside it. -/
lemma keeps_detachWords {p n : Nat} (hp : p ≠ 0 → Avoids K (h.base + (p + 4)) (h.base + (p + 12)))
    (hn : n ≠ 0 → Avoids K (h.base + (n + 4)) (h.base + (n + 12))) :
    Keeps K h (h.putWords (detachWords p n)) := by
  refine keeps_putWords fun w hw a ha => ?_
  rcases List.mem_append.1 hw with hw | hw
  · by_cases hp0 : p = 0
    · simp [hp0] at hw
    · have hpa := hp hp0 a ha
      rw [if_neg hp0, List.mem_singleton] at hw
      subst hw
      omega
  · by_cases hn0 : n = 0
    · simp [hn0] at hw
    · have hna := hn hn0 a ha
      rw [if_neg hn0, List.mem_singleton] at hw
      subst hw
      omega

lemma detach_exec {x p n size : Nat} (hx : x % 4 = 0) (hx' : x + 12 ≤ h.limit)
    (hp : p % 4 = 0) (hp' : p = 0 ∨ p + 12 ≤ h.limit) (hn : n % 4 = 0)
    (hn' : n = 0 ∨ n + 12 ≤ h.limit) (hl : h.limit ≤ 2 ^ 30) (hsize : (h.tagAt x).size = size)
    (hprev : h.wordAt (x + 4) = p) (hnext : h.wordAt (x + 8) = n)
    (hhead : p = 0 → h.buckets[bucketOf size] = x) :
    (detach x).exec h = .ok ((), { h.putWords (detachWords p n) with
      buckets := if p = 0 then h.buckets.set (bucketOf size) n else h.buckets }) := by
  subst hsize
  simp only [detach, detachWords, listHead]
  simp only [Run.exec_bind, readTag_exec hx (show x < h.limit by omega), Except.bind,
    prevLink_exec hx (show x + 8 ≤ h.limit by omega) hl, nextLink_exec hx hx' hl, hprev, hnext]
  by_cases hp0 : p = 0
  · simp only [hp0, if_true, Run.exec_bind, Run.exec_get, Except.bind, Run.exec_require,
      hhead hp0, Run.exec_modify, List.nil_append]
    by_cases hn0 : n = 0
    · simp [hn0]
    · simp only [ne_eq, hn0, not_false_eq_true, if_true, if_false]
      exact setPrevLink_exec
        (h := { h with buckets := h.buckets.set (bucketOf (h.tagAt x).size) n }) hn
        (show n + 8 ≤ h.limit by omega) hl
  · simp only [hp0, if_false, Run.exec_bind, setNextLink_exec hp (show p + 12 ≤ h.limit by omega) hl,
      Except.bind]
    by_cases hn0 : n = 0
    · simp only [hn0, ne_eq, not_true_eq_false, if_true, if_false, Run.exec_pure]
      rfl
    · simp only [ne_eq, hn0, not_false_eq_true, if_true, if_false]
      exact setPrevLink_exec (h := h.putWord (p + 8) n) hn (show n + 8 ≤ h.limit by omega) hl

/-- The words after a chunk was taken out of a list. -/
lemma wordAt_detachWords (hw : h.Window) {p n j : Nat}
    (hp : p = 0 ∨ p % 4 = 0 ∧ p + 12 ≤ h.limit) (hn : n = 0 ∨ n % 4 = 0 ∧ n + 12 ≤ h.limit)
    (hj : j % 4 = 0) (hj' : j + 4 ≤ h.limit) :
    (h.putWords (detachWords p n)).wordAt j =
      if n ≠ 0 ∧ j = n + 4 then p else if p ≠ 0 ∧ j = p + 8 then n else h.wordAt j := by
  have hl := hw.limit_le
  simp only [maxSize] at hl
  rw [wordAt_putWords hw (fun w hw => ?_) hj hj']
  · simp only [detachWords]
    by_cases hp0 : p = 0 <;> by_cases hn0 : n = 0 <;> simp [hp0, hn0]
  · simp only [detachWords, List.mem_append] at hw
    rcases hw with hw | hw
    · by_cases hp0 : p = 0
      · simp [hp0] at hw
      · obtain rfl : w = (p + 8, n) := by simpa [hp0] using hw
        dsimp only
        omega
    · by_cases hn0 : n = 0
      · simp [hn0] at hw
      · obtain rfl : w = (n + 4, p) := by simpa [hn0] using hw
        dsimp only
        omega

namespace HasShape

/-- The back of a list is nothing or one of its members. -/
lemma last_cases (xs : List Nat) : xs = [] ∧ xs.getLastD 0 = 0 ∨ xs.getLastD 0 ∈ xs := by
  rcases List.eq_nil_or_concat' xs with rfl | ⟨ws, w, rfl⟩
  · exact Or.inl ⟨rfl, rfl⟩
  · rw [List.getLastD_concat]
    exact Or.inr (by simp)

/-- The neighbours of a listed chunk are on its list too, or there are none. -/
lemma neighbours (H : h.HasShape S) {b : Fin 16} {x p n : Nat} {xs ys : List Nat}
    (hl : S.lists b = xs ++ x :: ys) (hp : xs.getLastD 0 = p) (hn : ys.headD 0 = n) :
    (xs = [] ∧ p = 0 ∨ p ∈ xs ∧ p ∈ S.lists b ∧ 4 ≤ p ∧ p % 8 = 4 ∧ p + 16 ≤ S.stop) ∧
      (n = 0 ∨ n ∈ ys ∧ n ∈ S.lists b ∧ 4 ≤ n ∧ n % 8 = 4 ∧ n + 16 ≤ S.stop) := by
  subst hp hn
  constructor
  · refine (last_cases xs).imp_right fun hp => ?_
    have hmem : xs.getLastD 0 ∈ S.lists b := by
      rw [hl]
      exact List.mem_append_left _ hp
    exact ⟨hp, hmem, H.bounds_of_listed hmem⟩
  · cases ys with
    | nil => exact Or.inl rfl
    | cons w ws =>
      have hmem : w ∈ S.lists b := by
        rw [hl]
        simp
      exact Or.inr ⟨List.mem_cons_self, hmem, H.bounds_of_listed hmem⟩

/-- Without `x`, the list is linked up again by the two words beside the gap. -/
lemma chained_detached (H : h.HasShape S) {b : Fin 16} {x p n : Nat} {xs ys : List Nat}
    (hl : S.lists b = xs ++ x :: ys) (hp : xs.getLastD 0 = p) (hn : ys.headD 0 = n)
    (hword : ∀ j, j % 4 = 0 → j + 4 ≤ h.limit → h'.wordAt j =
      if n ≠ 0 ∧ j = n + 4 then p else if p ≠ 0 ∧ j = p + 8 then n else h.wordAt j) :
    h'.Chained 0 (xs ++ ys) 0 := by
  have hnd := H.nodup b
  have hch := H.chained b
  rw [hl] at hnd hch
  obtain ⟨hpb, hnb⟩ := H.neighbours hl hp hn
  have hstop := H.stop_le
  have hmem : ∀ z, z ∈ xs ∨ z ∈ ys → 4 ≤ z ∧ z % 8 = 4 ∧ z + 16 ≤ S.stop := by
    intro z hz
    refine H.bounds_of_listed (b := b) ?_
    rw [hl]
    simpa using hz.imp_right Or.inr
  subst hp hn
  refine hch.remove hnd ?_ ?_ ?_ ?_
  · intro z hz hzp
    have := hmem z (Or.inl hz)
    rw [hword _ (by omega) (by omega), if_neg (by omega), if_pos (by omega)]
  · intro z hz hzn
    have := hmem z (Or.inr hz)
    rw [hword _ (by omega) (by omega), if_pos (by omega)]
  · intro z hz hzn
    have := hmem z (List.mem_append.1 hz)
    have hne : z ≠ ys.headD 0 := by
      rintro rfl
      exact hzn (hnb.resolve_left (by omega)).1 rfl
    rw [hword _ (by omega) (by omega), if_neg (by omega), if_neg (by omega)]
  · intro z hz hzp
    have := hmem z (List.mem_append.1 hz)
    have hne : z ≠ xs.getLastD 0 := by
      rintro rfl
      exact hzp (hpb.resolve_left (by omega)).1 rfl
    rw [hword _ (by omega) (by omega), if_neg (by omega), if_neg (by omega)]

/-- Taking a listed chunk out of its list. -/
lemma detached (H : h.HasShape S) {b : Fin 16} {x p n : Nat} {xs ys : List Nat}
    (hl : S.lists b = xs ++ x :: ys) (hp : xs.getLastD 0 = p) (hn : ys.headD 0 = n) :
    HasShape { h.putWords (detachWords p n) with
        buckets := if p = 0 then h.buckets.set b n else h.buckets }
      { S with lists := Function.update S.lists b (xs ++ ys) } := by
  obtain ⟨hpb, hnb⟩ := H.neighbours hl hp hn
  have hstop := H.stop_le
  set h' : Heap := { h.putWords (detachWords p n) with
    buckets := if p = 0 then h.buckets.set b n else h.buckets }
  have hword : ∀ j, j % 4 = 0 → j + 4 ≤ h.limit → h'.wordAt j =
      if n ≠ 0 ∧ j = n + 4 then p else if p ≠ 0 ∧ j = p + 8 then n else h.wordAt j := by
    intro j hj hj'
    show (h.putWords (detachWords p n)).wordAt j = _
    exact wordAt_detachWords H.window (by omega) (by omega) hj hj'
  have hbase : h'.base = h.base := putWords_base h (detachWords p n)
  have hlimit : h'.limit = h.limit := putWords_limit h (detachWords p n)
  have hcurrent : h'.currentSize = h.currentSize := putWords_currentSize h (detachWords p n)
  refine H.relist_one hbase hlimit hcurrent ?_ ?_ ?_ (H.chained_detached hl hp hn hword) ?_ ?_ ?_
  · -- both words that are written are link words of the neighbours
    intro j hj hj' hlink
    rw [hword j hj hj', if_neg, if_neg]
    · rintro ⟨hp0, rfl⟩
      obtain ⟨d, hd, hdp, hdfree, -⟩ := H.listed b p (hpb.resolve_left fun hp => hp0 hp.2).2.1
      have := hlink d hd hdfree
      omega
    · rintro ⟨hn0, rfl⟩
      obtain ⟨d, hd, hdn, hdfree, -⟩ := H.listed b n (hnb.resolve_left hn0).2.1
      have := hlink d hd hdfree
      omega
  · have hhead : h.buckets[b] = (S.lists b).headD 0 := H.head b
    show (if p = 0 then h.buckets.set b n else h.buckets)[b] = _
    rcases hpb with ⟨rfl, hp0⟩ | ⟨hpx, hpw⟩
    · rw [if_pos hp0, ← hn]
      simp
    · rw [if_neg (by omega), hhead, hl]
      cases xs with
      | nil => cases hpx
      | cons w ws => rfl
  · intro b' hb'
    have hne : (b : Nat) ≠ b' := fun heq => hb' (Fin.ext heq.symm)
    show (if p = 0 then h.buckets.set b n else h.buckets)[b'] = _
    by_cases hp0 : p = 0 <;> simp [hp0, hne]
  · -- the neighbours are on no other list
    intro b' hb' z hz
    have hzw := H.bounds_of_listed hz
    have hother : ∀ w ∈ S.lists b, z ≠ w := by
      rintro w hw rfl
      exact hb' (H.bucket_unique hz hw)
    have hzn : n = 0 ∨ z ≠ n := hnb.imp_right fun hn => hother n hn.2.1
    have hzp : p = 0 ∨ z ≠ p := hpb.imp And.right fun hp => hother p hp.2.1
    rw [hword _ (by omega) (by omega), hword _ (by omega) (by omega), if_neg (by omega),
      if_neg (by omega), if_neg (by omega), if_neg (by omega)]
    exact ⟨rfl, rfl⟩
  · intro z hz
    refine H.listed b z ?_
    rw [hl]
    simpa using (List.mem_append.1 hz).imp_right Or.inr
  · have hnd := H.nodup b
    rw [hl] at hnd
    exact hnd.sublist ((List.Sublist.refl xs).append (List.sublist_cons_self x ys))

/-- The words that `detach` writes in a heap with a shape. -/
lemma detach_writes (H : h.HasShape S) {b : Fin 16} {x p n : Nat} {xs ys : List Nat}
    (hl : S.lists b = xs ++ x :: ys) (hp : xs.getLastD 0 = p) (hn : ys.headD 0 = n) :
    (detach x).exec h = .ok ((), { h.putWords (detachWords p n) with
      buckets := if p = 0 then h.buckets.set b n else h.buckets }) := by
  obtain ⟨c, hc, rfl, -, rfl⟩ := H.listed b x (by rw [hl]; simp)
  obtain ⟨-, hxs, hxm, -, hsz, hstop, hlim, -⟩ := H.bounds hc
  obtain ⟨hpb, hnb⟩ := H.neighbours hl hp hn
  have hch := H.chained (bucketOf c.size)
  rw [hl] at hch
  obtain ⟨-, hprev, hnext, -⟩ := Linked.append_iff.1 hch
  have hsize : (h.tagAt c.offset).size = c.size := by rw [H.front c hc, H.tag_size hc]
  have hhead : p = 0 → h.buckets[bucketOf c.size] = c.offset := by
    intro hp0
    obtain ⟨rfl, -⟩ := hpb.resolve_right (by omega)
    rw [H.head, hl]
    rfl
  exact detach_exec (by omega) (by omega) (by omega) (by omega) (by omega) (by omega) hlim hsize
    (hprev.trans hp) (hnext.trans hn) hhead

/-- `detach` takes a listed chunk out of its list, and touches nothing but links of chunks that stay on
it. -/
theorem detach_links (H : h.HasShape S) (hlisted : c.offset ∈ S.lists (bucketOf c.size)) :
    (detach c.offset).Yields h fun _ h' => h'.HasShape { S with lists := unfiled S.lists c } ∧
      ∀ K, LinksClear (unfiled S.lists c) h.base K → Keeps K h h' := by
  obtain ⟨xs, ys, hl⟩ := List.append_of_mem hlisted
  have hnd := H.nodup (bucketOf c.size)
  rw [hl] at hnd
  obtain ⟨hpb, hnb⟩ := H.neighbours hl rfl rfl
  rw [Run.yields_of_exec (H.detach_writes hl rfl rfl)]
  have hshape := H.detached hl rfl rfl
  obtain ⟨hx, hy, herase⟩ := erase_middle hnd
  rw [← herase, ← hl] at hshape
  refine ⟨hshape, fun K hK => ?_⟩
  have hput : Keeps K h (h.putWords (detachWords (xs.getLastD 0) (ys.headD 0))) := by
    refine keeps_detachWords (fun hp0 => ?_) fun hn0 => ?_
    · obtain ⟨hpx, hp, -⟩ := hpb.resolve_left fun hp => hp0 hp.2
      exact hK _ _ (mem_unfiled hp (ne_of_mem_of_not_mem hpx hx))
    · obtain ⟨hny, hn, -⟩ := hnb.resolve_left hn0
      exact hK _ _ (mem_unfiled hn (ne_of_mem_of_not_mem hny hy))
  exact ⟨hput.base, hput.limit, hput.byte⟩

theorem detach_yields (H : h.HasShape S) (hlisted : c.offset ∈ S.lists (bucketOf c.size))
    (hK : ∀ d ∈ S.chunks, d.Clear h.base K) :
    (detach c.offset).Yields h fun _ h' =>
      h'.HasShape { S with lists := unfiled S.lists c } ∧ Keeps K h h' :=
  (H.detach_links hlisted).mono fun _ _ ⟨H', hkeeps⟩ => ⟨H', hkeeps K (H'.linksClear hK)⟩

/-- A chunk that was taken out of its list is on no list. -/
lemma not_mem_unfiled (H : h.HasShape S) (hlisted : c.offset ∈ S.lists (bucketOf c.size))
    (b : Fin 16) : c.offset ∉ unfiled S.lists c b := by
  simp only [unfiled]
  by_cases hb : b = bucketOf c.size
  · subst hb
    rw [Function.update_self]
    exact (H.nodup _).not_mem_erase
  · rw [Function.update_of_ne hb]
    exact fun hmem => hb (H.bucket_unique hmem hlisted)

/-- A listed chunk is taken out of its list and forgotten. -/
theorem takeOut_links {pre post : List Chunk} {lists : Fin 16 → List Nat} {stop : Nat}
    (H : h.HasShape ⟨pre ++ c :: post, lists, stop⟩) (hlisted : c.offset ∈ lists (bucketOf c.size)) :
    (detach c.offset).Yields h fun _ h' => h'.HasShape ⟨pre ++ post, unfiled lists c, stop⟩ ∧
      ∀ K, LinksClear (unfiled lists c) h.base K → Keeps K h h' :=
  (H.detach_links hlisted).mono fun _ _ ⟨H', hkeeps⟩ =>
    ⟨H'.drop_one (H.not_mem_unfiled hlisted), hkeeps⟩

theorem takeOut_yields {pre post : List Chunk} {lists : Fin 16 → List Nat} {stop : Nat}
    (H : h.HasShape ⟨pre ++ c :: post, lists, stop⟩)
    (hlisted : c.offset ∈ lists (bucketOf c.size))
    (hK : ∀ d ∈ pre ++ c :: post, d.Clear h.base K) :
    (detach c.offset).Yields h fun _ h' =>
      h'.HasShape ⟨pre ++ post, unfiled lists c, stop⟩ ∧ Keeps K h h' := by
  refine (H.takeOut_links hlisted).mono fun _ _ ⟨H', hkeeps⟩ =>
    ⟨H', hkeeps K (H'.linksClear fun d hd => hK d ?_)⟩
  simp only [List.mem_append, List.mem_cons] at hd ⊢
  tauto

end HasShape

end Heap

end KernelMemory
