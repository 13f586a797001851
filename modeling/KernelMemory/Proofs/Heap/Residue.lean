import KernelMemory.Proofs.Heap.Coalescing

/-!
# What is left of a freed chunk

A freed chunk that is merged leaves its tags behind.  Only the two outermost tags of the merged chunk are
written, and of its body only the two links; all other words inside it say what they said before.  So
behind the links of the merged chunk one still reads the tags of the chunk that was freed, the tag of the
free chunk on its left, and the tag and the links of the one on its right (`Buried`).
-/

namespace KernelMemory

namespace Heap

variable {h h₁ h' : Heap} {S : Shape} {l c r m : Chunk} {pre post : List Chunk}
  {lists : Fin 16 → List Nat} {xs ys : List Nat} {stop x y i : Nat}

/-! ## Words that are kept -/

/-- Where nothing but links of listed chunks is touched, the words between the chunks are kept. -/
lemma wordAt_gap (H : h₁.HasShape ⟨pre ++ post, lists, stop⟩) (hpre : Packed 4 pre x)
    (hpost : Packed y post stop) (hw : h.Window)
    (hkeeps : ∀ K, LinksClear lists h.base K → Keeps K h h₁) (hxi : x ≤ i) (hiy : i + 4 ≤ y) :
    h₁.wordAt i = h.wordAt i := by
  have hclear : LinksClear lists h.base fun a => h.base + x ≤ a ∧ a < h.base + y := by
    intro b z hz a ha
    obtain ⟨d, hd, rfl, -⟩ := H.listed b z hz
    rcases List.mem_append.1 hd with hd | hd
    · have := hpre.bounds hd
      omega
    · have := hpost.bounds hd
      omega
  have hk := hkeeps _ hclear
  have hy := hpost.le
  have hstop : stop ≤ h₁.limit := H.stop_le
  have hlimit := hk.limit
  exact hk.wordAt_eq hw (by omega) fun j hj => by omega

/-- Inside a chunk that is tagged and filed, the words behind its links are kept. -/
lemma wordAt_filed (H : h'.HasShape ⟨pre ++ m :: post, filed lists m, stop⟩) (hw : h.Window)
    (hkeeps : ∀ K, m.TagsClear h.base K → LinksClear (filed lists m) h.base K → Keeps K h h')
    (hlo : m.offset + 12 ≤ i) (hhi : i + 4 ≤ m.offset + 4 + m.size) : h'.wordAt i = h.wordAt i := by
  have hm : m ∈ pre ++ m :: post := by simp
  have hbounds := H.bounds hm
  have hclear : LinksClear (filed lists m) h.base fun a =>
      h.base + (m.offset + 12) ≤ a ∧ a < h.base + (m.offset + 4 + m.size) := by
    intro b z hz a ha
    obtain ⟨d, hd, rfl, -⟩ := H.listed b z hz
    have hdb := H.bounds hd
    rcases H.packed.apart hm hd with rfl | hlt | hlt <;> omega
  have htags : m.TagsClear h.base fun a =>
      h.base + (m.offset + 12) ≤ a ∧ a < h.base + (m.offset + 4 + m.size) :=
    ⟨fun a ha => by omega, fun a ha => by omega⟩
  have hk := hkeeps _ htags hclear
  have hlimit := hk.limit
  exact hk.wordAt_eq hw (by omega) fun j hj => by omega

/-! ## Chunks that were taken out -/

/-- The words of the chunk `r` say that it is as large as it is and stands between `xs` and `ys` on its
list. -/
structure Marked (h : Heap) (r : Chunk) (xs ys : List Nat) : Prop where
  tag : h.tagAt r.offset = r.tag
  prev : h.wordAt (r.offset + 4) = xs.getLastD 0
  next : h.wordAt (r.offset + 8) = ys.headD 0

lemma HasShape.marked (H : h.HasShape S) (hr : r ∈ S.chunks) {b : Fin 16}
    (hl : S.lists b = xs ++ r.offset :: ys) : Marked h r xs ys := by
  have hchained := H.chained b
  rw [hl] at hchained
  obtain ⟨-, hprev, hnext, -⟩ := Linked.append_iff.1 hchained
  exact ⟨H.front r hr, hprev, hnext⟩

/-- A chunk that is taken out once more seems to be the front of its list if it was the front before. -/
lemma detach_front_again (H : h.HasShape S) (hr : r.Proper) (hfit : r.offset + r.size + 8 ≤ S.stop)
    (hmarked : Marked h r [] ys) (hl : S.lists (bucketOf r.size) = ys) (hout : r.offset ∉ ys) :
    (detach r.offset).exec h = .error (.headMismatch (ys.headD 0) r.offset) := by
  obtain ⟨h₁, h₂, h₃⟩ := hr
  have hstop := H.stop_le
  have hlimit : h.limit ≤ 2 ^ 30 := H.window.limit_le
  have hsize : (h.tagAt r.offset).size = r.size := by
    rw [hmarked.tag]
    exact size_tagOf (by omega)
  have hhead : h.buckets[bucketOf r.size] = ys.headD 0 := by rw [H.head, hl]
  have hne : ys.headD 0 ≠ r.offset := by
    cases ys with
    | nil =>
      rw [List.headD_nil]
      omega
    | cons z zs => exact fun heq => hout (heq ▸ List.mem_cons_self)
  simp only [detach, listHead]
  simp only [Run.exec_bind, readTag_exec (show r.offset % 4 = 0 by omega)
    (show r.offset < h.limit by omega), Except.bind,
    prevLink_exec (show r.offset % 4 = 0 by omega) (show r.offset + 8 ≤ h.limit by omega) hlimit,
    nextLink_exec (show r.offset % 4 = 0 by omega) (show r.offset + 12 ≤ h.limit by omega) hlimit,
    hmarked.prev, List.getLastD_nil, if_true, Run.exec_get, hsize, hhead, Run.exec_require, if_neg hne]

/-- The links beside a chunk that was taken out lead past it already, so taking it out once more changes
nothing. -/
lemma detach_again (H : h.HasShape S) (hr : r.Proper) (hfit : r.offset + r.size + 8 ≤ S.stop)
    (hmarked : Marked h r xs ys) (hl : S.lists (bucketOf r.size) = xs ++ ys) (hxs : xs ≠ []) :
    (detach r.offset).Yields h fun _ h' => h'.HasShape S := by
  obtain ⟨h₁, h₂, h₃⟩ := hr
  have hstop := H.stop_le
  have hlimit : h.limit ≤ 2 ^ 30 := H.window.limit_le
  have hsize : (h.tagAt r.offset).size = r.size := by
    rw [hmarked.tag]
    exact size_tagOf (by omega)
  obtain ⟨ws, p, rfl⟩ := (List.eq_nil_or_concat' xs).resolve_left hxs
  have hchained := H.chained (bucketOf r.size)
  rw [hl] at hchained
  obtain ⟨hleft, hright⟩ := Linked.append_iff.1 hchained
  obtain ⟨-, -, hpnext, -⟩ := Linked.append_iff.1 hleft
  have hplast : (ws ++ [p]).getLastD 0 = p := List.getLastD_concat
  have hprev := hmarked.prev
  rw [hplast] at hprev hright
  have hpb := H.bounds_of_listed (b := bucketOf r.size) (x := p) (by rw [hl]; simp)
  obtain ⟨n, hn⟩ : ∃ n, ys.headD 0 = n := ⟨_, rfl⟩
  have hpnext' : h.wordAt (p + 8) = n := hpnext.trans hn
  have hnb : n = 0 ∨ h.wordAt (n + 4) = p ∧ 4 ≤ n ∧ n % 8 = 4 ∧ n + 16 ≤ S.stop := by
    cases ys with
    | nil => exact Or.inl hn.symm
    | cons z zs =>
      obtain rfl : z = n := hn
      exact Or.inr ⟨hright.1, H.bounds_of_listed (b := bucketOf r.size) (by rw [hl]; simp)⟩
  rw [Run.yields_of_exec (detach_exec (by omega) (by omega) (by omega) (by omega) (by omega) (by omega)
    hlimit hsize hprev (hmarked.next.trans hn) fun hp0 => by omega)]
  -- both words are overwritten with what they hold
  have hword : ∀ j, j % 4 = 0 → j + 4 ≤ h.limit → (h.putWords (detachWords p n)).wordAt j = h.wordAt j := by
    intro j hj hj'
    rw [wordAt_detachWords H.window (by omega) (by omega) hj hj']
    split
    · rename_i hjn
      rw [hjn.2, (hnb.resolve_left hjn.1).1]
    · split
      · rename_i hjp
        rw [hjp.2, hpnext']
      · rfl
  refine H.relist (putWords_base h _) (putWords_limit h _) (putWords_currentSize h _)
    (fun j hj hj' _ => hword j hj hj') (fun b => ?_) (fun b => (H.chained b).congr fun z hz => ?_) H.listed
    H.nodup
  · rw [← H.head b, if_neg (by omega)]
  · have hzb := H.bounds_of_listed hz
    exact ⟨hword _ (by omega) (by omega), hword _ (by omega) (by omega)⟩

/-! ## Chunks that were merged -/

/-- The free chunk that covers the chunk `c` and its neighbours. -/
def Chunk.around (l c r : Chunk) : Chunk :=
  ⟨l.offset, c.size + (l.size + 8) + (r.size + 8), false⟩

/-- The chunk `c` was given back between the free chunks `l` and `r`, and its words are all still there. -/
structure Buried (h : Heap) (pre : List Chunk) (l c r : Chunk) (post : List Chunk)
    (lists : Fin 16 → List Nat) (stop : Nat) (xs ys : List Nat) : Prop where
  tiles : Tiles 4 (pre ++ l :: c :: r :: post) stop
  used : c.occupied = true
  leftFree : l.occupied = false
  rightFree : r.occupied = false
  more : post ≠ []
  shape : h.HasShape ⟨pre ++ l.around c r :: post, filed lists (l.around c r), stop⟩
  front : h.tagAt c.offset = c.tag
  back : h.tagAt (c.offset + 4 + c.size) = c.tag
  left : h.tagAt (l.offset + 4 + l.size) = l.tag
  right : Marked h r xs ys
  listed : lists (bucketOf r.size) = xs ++ ys
  unlisted : r.offset ∉ xs ++ ys

section Merging

variable {start size size' : Nat} {pre' post' : List Chunk} {lists' : Fin 16 → List Nat}

lemma MergedLeft.of_used (hM : MergedLeft x size pre lists start size' pre' lists')
    (hused : ∀ l ∈ pre.getLast?, l.occupied = true) :
    start = x ∧ size' = size ∧ pre' = pre ∧ lists' = lists := by
  cases hM with
  | alone => exact ⟨rfl, rfl, rfl, rfl⟩
  | @joined pre l lists hfree =>
    have hocc := hused l (by simp)
    rw [hfree] at hocc
    cases hocc

lemma MergedLeft.of_free (hM : MergedLeft x size (pre ++ [l]) lists start size' pre' lists')
    (hfree : l.occupied = false) :
    start = l.offset ∧ size' = size + (l.size + 8) ∧ pre' = pre ∧ lists' = unfiled lists l := by
  generalize hpre : pre ++ [l] = ps at hM
  cases hM with
  | alone hused =>
    have hocc := hused l (by simp [← hpre])
    rw [hfree] at hocc
    cases hocc
  | joined =>
    obtain ⟨rfl, hl⟩ := List.append_inj' hpre rfl
    obtain rfl := List.singleton_inj.1 hl
    exact ⟨rfl, rfl, rfl, rfl⟩

lemma MergedRight.of_used (hM : MergedRight size post lists size' post' lists')
    (hused : ∀ r ∈ post.head?, r.occupied = true) : size' = size ∧ post' = post ∧ lists' = lists := by
  cases hM with
  | alone => exact ⟨rfl, rfl, rfl⟩
  | @joined r post lists hfree =>
    have hocc := hused r rfl
    rw [hfree] at hocc
    cases hocc

lemma MergedRight.of_free (hM : MergedRight size (r :: post) lists size' post' lists')
    (hfree : r.occupied = false) :
    size' = size + (r.size + 8) ∧ post' = post ∧ lists' = unfiled lists r := by
  cases hM with
  | alone hused =>
    have hocc := hused r rfl
    rw [hfree] at hocc
    cases hocc
  | joined => exact ⟨rfl, rfl, rfl⟩

end Merging

/-- How a chunk `c` is given back that stands behind a free chunk `l`: the heap ends where `l` started, or the
merged chunk is filed.  Then `h₁` is the heap after `l` was taken out; that step touches no word of `l` and
`c`, and the others touch none of the words behind the links of `l`. -/
inductive Joined (h : Heap) (pre : List Chunk) (l c : Chunk) (post : List Chunk)
    (lists : Fin 16 → List Nat) (stop : Nat) (h' : Heap) : Prop
  | shrunk {size : Nat} {lists' : Fin 16 → List Nat} :
    MergedRight (c.size + (l.size + 8)) post (unfiled lists l) size [] lists' →
    h'.currentSize = l.offset → Joined h pre l c post lists stop h'
  | filed {size : Nat} {post' : List Chunk} {lists' : Fin 16 → List Nat} {h₁ : Heap} :
    MergedRight (c.size + (l.size + 8)) post (unfiled lists l) size post' lists' → post' ≠ [] →
    h₁.HasShape ⟨pre ++ post, unfiled lists l, stop⟩ →
    h'.HasShape ⟨pre ++ ⟨l.offset, size, false⟩ :: post', filed lists' ⟨l.offset, size, false⟩, stop⟩ →
    (∀ i, l.offset ≤ i → i + 4 ≤ c.offset + c.size + 8 → h₁.wordAt i = h.wordAt i) →
    (∀ i, l.offset + 12 ≤ i → i + 4 ≤ l.offset + 4 + size → h'.wordAt i = h₁.wordAt i) →
    Joined h pre l c post lists stop h'

lemma Freeing.joined (hF : Freeing h (pre ++ [l]) c post lists stop h') (hw : h.Window)
    (htiles : Tiles 4 (pre ++ l :: c :: post) stop) (hl : l.occupied = false) :
    Joined h pre l c post lists stop h' := by
  obtain @⟨start, size₁, size₂, pre', post', lists₁, lists₂, h₁, h₂, hL, H₁, hkeeps₁, hR, H₂, hkeeps₂,
    hrelease⟩ := hF
  obtain ⟨rfl, rfl, rfl, rfl⟩ := hL.of_free hl
  obtain ⟨hpre, hlproper, hc, hcproper, hpost⟩ := tiles_middle.1 htiles
  cases hrelease with
  | shrunk hnil H₃ =>
    subst hnil
    exact .shrunk hR H₃.current
  | filed hne H₃ hkeeps₃ =>
    rw [show c.offset + c.size + 8 = l.offset + (c.size + (l.size + 8)) + 8 by omega] at hpost
    obtain ⟨hpost', -⟩ := hR.tiles hpost ⟨hlproper.offset_mod, by
      have := hlproper.size_mod
      have := hcproper.size_mod
      dsimp only
      omega, by dsimp only; omega⟩
    refine .filed hR hne H₁ H₃ (fun i hlo hhi => ?_) fun i hlo hhi => ?_
    · exact wordAt_gap H₁ hpre.packed hpost.packed hw hkeeps₁ hlo (by omega)
    · rw [wordAt_filed H₃ H₂.window hkeeps₃ hlo hhi,
        wordAt_gap H₂ hpre.packed hpost'.packed H₁.window hkeeps₂ (by omega) (by omega)]

/-- Between two free chunks a chunk is buried. -/
lemma Freeing.buried (hF : Freeing h (pre ++ [l]) c (r :: post) lists stop h')
    (H : h.HasShape ⟨pre ++ l :: c :: r :: post, lists, stop⟩)
    (hS : Shape.Settled ⟨pre ++ l :: c :: r :: post, lists, stop⟩) (hocc : c.occupied = true)
    (hl : l.occupied = false) (hr : r.occupied = false) (hpost : post ≠ []) :
    ∃ xs ys, unfiled lists l (bucketOf r.size) = xs ++ r.offset :: ys ∧
      Buried h' pre l c r post (unfiled (unfiled lists l) r) stop xs ys := by
  obtain ⟨-, hlproper, hloffset, hcproper, hroffset, hrproper, -⟩ := tiles_middle.1 hS.tiles
  have hl8 := hlproper.size_ge
  have hc8 := hcproper.size_ge
  have hr8 := hrproper.size_ge
  cases hF.joined H.window hS.tiles hl with
  | shrunk hR => exact absurd (hR.of_free hr).2.1.symm hpost
  | @filed size post' lists' h₁ hR _ H₁ H' hkept₁ hkept =>
    obtain ⟨rfl, rfl, rfl⟩ := hR.of_free hr
    have htag : ∀ i, l.offset + 12 ≤ i → i + 4 ≤ c.offset + c.size + 8 → h'.tagAt i = h.tagAt i := by
      intro i hlo hhi
      simp only [tagAt]
      rw [hkept i hlo (by omega), hkept₁ i (by omega) hhi]
    -- the chunk on the right is on its list still when the one on the left is not
    obtain ⟨xs, ys, hsplit⟩ := List.append_of_mem (hS.mem_unfiled (d := r) (by simp) hr)
    have hnodup := H₁.nodup (bucketOf r.size)
    dsimp only at hnodup
    rw [hsplit] at hnodup
    obtain ⟨hxs, hys, herase⟩ := erase_middle hnodup
    obtain ⟨hrtag, hrprev, hrnext⟩ := H₁.marked (r := r) (by simp) hsplit
    refine ⟨xs, ys, hsplit,
      { tiles := hS.tiles, used := hocc, leftFree := hl, rightFree := hr, more := hpost, shape := H',
        front := ?_, back := ?_, left := ?_, right := ⟨?_, ?_, ?_⟩, listed := ?_,
        unlisted := by simp [hxs, hys] }⟩
    · rw [htag _ (by omega) (by omega), H.front c (by simp)]
    · rw [htag _ (by omega) (by omega), H.back c (by simp)]
    · rw [htag _ (by omega) (by omega), H.back l (by simp)]
    · rw [← hrtag, tagAt, tagAt, hkept _ (by omega) (by omega)]
    · rw [hkept _ (by omega) (by omega), hrprev]
    · rw [hkept _ (by omega) (by omega), hrnext]
    · rw [unfiled, Function.update_self, hsplit, herase]

end Heap

end KernelMemory
