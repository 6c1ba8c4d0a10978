import Mathlib.Data.List.Nodup

/-!
# Circular lists on a heap

A node has the addresses of the next and of the previous node, and may be read or written while it
is live. A list is kept in a ring: its head is a node like those of its items, the last item leads
back to it, and an empty list is a head that leads to itself.

`Lists h rs` says that the heap holds the lists `rs`, each given by its head and its items, and that
no node is in two places. Each operation then works, keeps the lists it is not about, and does to
its own list what it says (`Lists.init`, `Lists.addTail`, `Lists.remove`). `Owns h rs` says besides
that no other node is live: nothing has leaked.
-/

namespace Circular

universe u

variable {N σ : Type u}

structure Heap (N : Type u) where
  live : N → Bool
  next : N → N
  prev : N → N

namespace Heap

def getNext (h : Heap N) (a : N) : Option N := if h.live a then some (h.next a) else none

def getPrev (h : Heap N) (a : N) : Option N := if h.live a then some (h.prev a) else none

variable [DecidableEq N]

def setNext (h : Heap N) (a b : N) : Option (Heap N) :=
  if h.live a then some { h with next := Function.update h.next a b } else none

def setPrev (h : Heap N) (a b : N) : Option (Heap N) :=
  if h.live a then some { h with prev := Function.update h.prev a b } else none

/-- The links of the new node are whatever they are. -/
def alloc (h : Heap N) (a : N) : Heap N := { h with live := Function.update h.live a true }

@[simp] theorem live_alloc {h : Heap N} {a b : N} :
    (h.alloc a).live b = true ↔ b = a ∨ h.live b = true := by
  simp only [alloc, Function.update_apply]
  split <;> simp [*]

def free (h : Heap N) (a : N) : Option (Heap N) :=
  if h.live a then some { h with live := Function.update h.live a false } else none

def init (h : Heap N) (node : N) : Option (Heap N) := do
  let h ← h.setNext node node
  h.setPrev node node

def addTail (h : Heap N) (head item : N) : Option (Heap N) := do
  let h ← h.setNext item head
  let h ← h.setPrev item (← h.getPrev head)
  let h ← h.setNext (← h.getPrev head) item
  h.setPrev head item

def remove (h : Heap N) (item : N) : Option (Heap N) := do
  let h ← h.setPrev (← h.getNext item) (← h.getPrev item)
  h.setNext (← h.getPrev item) (← h.getNext item)

end Heap

/-- The links go from `a` through `l` to `b`, and back. -/
def Seg (h : Heap N) : N → List N → N → Prop
  | a, [], b => h.next a = b ∧ h.prev b = a
  | a, x :: l, b => h.next a = x ∧ h.prev x = a ∧ Seg h x l b

variable {h h' : Heap N}

theorem seg_append {b x : N} {l' : List N} : ∀ {l : List N} {a : N},
    Seg h a (l ++ x :: l') b ↔ Seg h a l x ∧ Seg h x l' b
  | [], a => by simp [Seg, and_assoc]
  | y :: l, a => by simp [Seg, seg_append (l := l) (a := y), and_assoc]

theorem Seg.next_eq {a b : N} : ∀ {l : List N}, Seg h a l b → h.next a = (l ++ [b]).head (by simp)
  | [], hs => hs.1
  | _ :: _, hs => hs.1

theorem Seg.prev_eq {b : N} : ∀ {l : List N} {a : N}, Seg h a l b →
    h.prev b = (a :: l).getLast (by simp)
  | [], _, hs => hs.2
  | _ :: _, _, hs => hs.2.2.prev_eq.trans (List.getLast_cons (List.cons_ne_nil _ _)).symm

theorem Seg.congr {b : N} : ∀ {l : List N} {a : N}, Seg h a l b →
    (∀ x ∈ a :: l, h'.next x = h.next x) → (∀ x ∈ l ++ [b], h'.prev x = h.prev x) → Seg h' a l b
  | [], a, hs, hn, hp => ⟨by rw [hn a (by simp)]; exact hs.1, by rw [hp b (by simp)]; exact hs.2⟩
  | x :: l, a, hs, hn, hp => by
    refine ⟨by rw [hn a (by simp)]; exact hs.1, by rw [hp x (by simp)]; exact hs.2.1, ?_⟩
    exact hs.2.2.congr (fun y hy => hn y (List.mem_cons_of_mem _ hy))
      fun y hy => hp y (List.mem_cons_of_mem _ hy)

/-- The last node is linked to another one. -/
theorem Seg.retarget {b c : N} : ∀ {l : List N} {a : N}, Seg h a l b → (a :: l).Nodup →
    (∀ x ∈ l, h'.prev x = h.prev x) →
    (∀ x ∈ a :: l, x ≠ (a :: l).getLast (by simp) → h'.next x = h.next x) →
    h'.next ((a :: l).getLast (by simp)) = c → h'.prev c = (a :: l).getLast (by simp) →
    Seg h' a l c
  | [], _, _, _, _, _, hnc, hpc => ⟨hnc, hpc⟩
  | x :: l, a, hs, hd, hp, hn, hnc, hpc => by
    have hlast : (a :: x :: l).getLast (by simp) = (x :: l).getLast (by simp) :=
      List.getLast_cons (by simp)
    rw [hlast] at hnc hpc
    simp only [hlast] at hn
    have ha : a ≠ (x :: l).getLast (by simp) := fun he =>
      (List.nodup_cons.1 hd).1 (he ▸ List.getLast_mem _)
    refine ⟨by rw [hn a (by simp) ha]; exact hs.1, by rw [hp x (by simp)]; exact hs.2.1, ?_⟩
    exact hs.2.2.retarget (List.nodup_cons.1 hd).2 (fun y hy => hp y (List.mem_cons_of_mem _ hy))
      (fun y hy hne => hn y (List.mem_cons_of_mem _ hy) hne) hnc hpc

def nodes (rs : List (N × List N)) : List N := rs.flatMap fun r => r.1 :: r.2

@[simp] theorem nodes_nil : nodes ([] : List (N × List N)) = [] := rfl

@[simp] theorem nodes_cons (r : N × List N) (rs : List (N × List N)) :
    nodes (r :: rs) = r.1 :: r.2 ++ nodes rs := rfl

theorem mem_nodes {a : N} {rs : List (N × List N)} :
    a ∈ nodes rs ↔ ∃ r ∈ rs, a ∈ r.1 :: r.2 := List.mem_flatMap

structure Lists (h : Heap N) (rs : List (N × List N)) : Prop where
  seg : ∀ r ∈ rs, Seg h r.1 r.2 r.1
  nodup : (nodes rs).Nodup
  live : ∀ a ∈ nodes rs, h.live a = true

namespace Lists

variable {rs rs' : List (N × List N)} {head item : N} {l l₁ l₂ : List N}

theorem perm (hl : Lists h rs) (hp : rs.Perm rs') : Lists h rs' := by
  have hn : (nodes rs).Perm (nodes rs') := hp.flatMap_right _
  exact ⟨fun r hr => hl.seg r (hp.mem_iff.2 hr), hn.nodup_iff.1 hl.nodup,
    fun a ha => hl.live a (hn.mem_iff.2 ha)⟩

theorem tail {r : N × List N} (hl : Lists h (r :: rs)) : Lists h rs where
  seg := fun r' hr => hl.seg r' (List.mem_cons_of_mem _ hr)
  nodup := (List.nodup_append.1 (nodes_cons r rs ▸ hl.nodup)).2.1
  live := fun a ha => hl.live a (by rw [nodes_cons]; exact List.mem_append_right _ ha)

/-- The items of a list do not matter to another one. -/
theorem notMem_tail (hl : Lists h ((head, l) :: rs)) {a : N} (ha : a ∈ head :: l) :
    a ∉ nodes rs := fun hr =>
  (List.nodup_append.1 (nodes_cons (head, l) rs ▸ hl.nodup)).2.2 a ha a hr rfl

theorem nodup_head (hl : Lists h ((head, l) :: rs)) : (head :: l).Nodup :=
  (List.nodup_append.1 (nodes_cons (head, l) rs ▸ hl.nodup)).1

theorem live_head (hl : Lists h ((head, l) :: rs)) {a : N} (ha : a ∈ head :: l) :
    h.live a = true := hl.live a (by rw [nodes_cons]; exact List.mem_append_left _ ha)

/-- Lists that a step does not touch. -/
theorem congr (hl : Lists h rs) (hlive : h'.live = h.live)
    (hn : ∀ a ∈ nodes rs, h'.next a = h.next a) (hp : ∀ a ∈ nodes rs, h'.prev a = h.prev a) :
    Lists h' rs := by
  refine ⟨fun r hr => (hl.seg r hr).congr (fun x hx => hn x (mem_nodes.2 ⟨r, hr, hx⟩))
    fun x hx => hp x (mem_nodes.2 ⟨r, hr, ?_⟩), hl.nodup, hlive ▸ hl.live⟩
  rcases List.mem_append.1 hx with hx | hx
  · exact List.mem_cons_of_mem _ hx
  · rw [List.mem_singleton.1 hx]
    exact List.mem_cons_self

theorem cons (hs : Seg h head l head) (hd : (head :: l).Nodup)
    (hlive : ∀ a ∈ head :: l, h.live a = true) (hne : ∀ a ∈ head :: l, a ∉ nodes rs)
    (hl : Lists h rs) : Lists h ((head, l) :: rs) where
  seg := by
    intro r hr
    rcases List.mem_cons.1 hr with rfl | hr
    · exact hs
    · exact hl.seg r hr
  nodup := List.nodup_append.2 ⟨hd, hl.nodup, fun a ha b hb he => hne a ha (he ▸ hb)⟩
  live := fun a ha => by
    rcases List.mem_append.1 ha with ha | ha
    · exact hlive a ha
    · exact hl.live a ha

/-- What follows the item `item` is the next item, or the head. -/
theorem getNext_item (hl : Lists h ((head, l₁ ++ item :: l₂) :: rs)) :
    h.getNext item = some ((l₂ ++ [head]).head (by simp)) := by
  have hs := (seg_append.1 (hl.seg _ List.mem_cons_self)).2
  rw [Heap.getNext, if_pos (hl.live_head (by simp)), hs.next_eq]

theorem getNext_head (hl : Lists h ((head, l) :: rs)) :
    h.getNext head = some ((l ++ [head]).head (by simp)) := by
  rw [Heap.getNext, if_pos (hl.live_head List.mem_cons_self),
    (hl.seg _ List.mem_cons_self).next_eq]

variable [DecidableEq N]

theorem alloc (hl : Lists h rs) (a : N) : Lists (h.alloc a) rs :=
  ⟨fun r hr => (hl.seg r hr).congr (fun _ _ => rfl) fun _ _ => rfl, hl.nodup, fun b hb => by
    simp only [Heap.alloc, Function.update_apply]
    split
    · rfl
    · exact hl.live b hb⟩

theorem free (hl : Lists h rs) {a : N} (ha : a ∉ nodes rs) (hlive : h.live a = true) :
    ∃ h', h.free a = some h' ∧ h'.live = Function.update h.live a false ∧ Lists h' rs := by
  refine ⟨{ h with live := Function.update h.live a false }, if_pos hlive, rfl, ⟨fun r hr =>
    (hl.seg r hr).congr (fun _ _ => rfl) fun _ _ => rfl, hl.nodup, fun b hb => ?_⟩⟩
  have hne : b ≠ a := fun he => ha (he ▸ hb)
  simpa [Function.update_of_ne hne] using hl.live b hb

theorem init (hl : Lists h rs) (node : N) (hn : node ∉ nodes rs) (hlive : h.live node = true) :
    ∃ h', h.init node = some h' ∧ h'.live = h.live ∧ Lists h' ((node, []) :: rs) := by
  refine ⟨{ h with
    next := Function.update h.next node node
    prev := Function.update h.prev node node }, ?_, rfl, ?_⟩
  · simp [Heap.init, Heap.setNext, Heap.setPrev, hlive]
  · refine cons ⟨by simp, by simp⟩ (by simp) (by simpa using hlive) (by simpa using hn) ?_
    have hne : ∀ a ∈ nodes rs, a ≠ node := fun a ha he => hn (he ▸ ha)
    exact hl.congr rfl (fun a ha => Function.update_of_ne (hne a ha) _ _)
      fun a ha => Function.update_of_ne (hne a ha) _ _

theorem addTail (hl : Lists h ((head, l) :: rs)) (hi : item ∉ nodes ((head, l) :: rs))
    (hlive : h.live item = true) :
    ∃ h', h.addTail head item = some h' ∧ h'.live = h.live
      ∧ Lists h' ((head, l ++ [item]) :: rs) := by
  have hseg : Seg h head l head := hl.seg _ List.mem_cons_self
  have hprev : h.prev head = (head :: l).getLast (by simp) := hseg.prev_eq
  generalize hlast : (head :: l).getLast (by simp) = last at hprev
  have hlast_mem : last ∈ head :: l := hlast ▸ List.getLast_mem _
  have hi' : item ∉ head :: l := fun hm => hi (by rw [nodes_cons]; exact List.mem_append_left _ hm)
  have hir : item ∉ nodes rs := fun hm => hi (by rw [nodes_cons]; exact List.mem_append_right _ hm)
  have hne : head ≠ item := fun he => hi' (he ▸ List.mem_cons_self)
  have hne' : last ≠ item := fun he => hi' (he ▸ hlast_mem)
  let next' := Function.update (Function.update h.next item head) last item
  let prev' := Function.update (Function.update h.prev item last) head item
  refine ⟨⟨h.live, next', prev'⟩, ?_, rfl, ?_⟩
  · simp [Heap.addTail, Heap.setNext, Heap.setPrev, Heap.getPrev, hlive,
      hl.live_head hlast_mem, hl.live_head List.mem_cons_self, hprev, hne,
      next', prev']
  have hnext : ∀ a, a ≠ item → a ≠ last → next' a = h.next a := fun a ha ha' => by
    simp only [next']
    rw [Function.update_of_ne ha', Function.update_of_ne ha]
  have hprev' : ∀ a, a ≠ item → a ≠ head → prev' a = h.prev a := fun a ha ha' => by
    simp only [prev']
    rw [Function.update_of_ne ha', Function.update_of_ne ha]
  have hrest : ∀ a ∈ nodes rs, a ≠ item ∧ a ≠ last ∧ a ≠ head := fun a ha =>
    ⟨fun he => hir (he ▸ ha), fun he => hl.notMem_tail hlast_mem (he ▸ ha),
      fun he => hl.notMem_tail List.mem_cons_self (he ▸ ha)⟩
  refine cons ?_ ?_ ?_ ?_ (hl.tail.congr rfl (fun a ha => ?_) fun a ha => ?_)
  · -- up to the last item the links are as before, then they go to the new one and back
    refine seg_append.2 ⟨?_, ?_⟩
    · refine hseg.retarget hl.nodup_head (fun x hx => ?_) (fun x hx hxl => ?_) ?_ ?_
      · exact hprev' x (fun he => hi' (he ▸ List.mem_cons_of_mem _ hx))
          fun he => (List.nodup_cons.1 hl.nodup_head).1 (he ▸ hx)
      · exact hnext x (fun he => hi' (he ▸ hx)) (hlast ▸ hxl)
      · rw [hlast]
        simp [next']
      · rw [hlast]
        simp [prev', Function.update_of_ne hne.symm]
    · exact ⟨by simp [next', Function.update_of_ne hne'.symm], by simp [prev']⟩
  · have h1 : ((head :: l) ++ [item]).Nodup :=
      List.nodup_append.2 ⟨hl.nodup_head, by simp, fun a ha b hb he => by
        rw [List.mem_singleton.1 hb] at he
        exact hi' (he ▸ ha)⟩
    simpa using h1
  · intro a ha
    rcases List.mem_append.1 (show a ∈ (head :: l) ++ [item] by simpa using ha) with ha | ha
    · exact hl.live_head ha
    · rw [List.mem_singleton.1 ha]
      exact hlive
  · intro a ha
    rcases List.mem_append.1 (show a ∈ (head :: l) ++ [item] by simpa using ha) with ha | ha
    · exact hl.notMem_tail ha
    · rw [List.mem_singleton.1 ha]
      exact hir
  · exact hnext a (hrest a ha).1 (hrest a ha).2.1
  · exact hprev' a (hrest a ha).1 (hrest a ha).2.2

theorem remove (hl : Lists h ((head, l₁ ++ item :: l₂) :: rs)) :
    ∃ h', h.remove item = some h' ∧ h'.live = h.live ∧ Lists h' ((head, l₁ ++ l₂) :: rs) := by
  obtain ⟨hs₁, hs₂⟩ := seg_append.1 (hl.seg _ List.mem_cons_self)
  have hd : (head :: l₁ ++ item :: l₂).Nodup := hl.nodup_head
  obtain ⟨hd₁, hd₂, hdis⟩ := List.nodup_append.1 hd
  have hi : item ∈ head :: (l₁ ++ item :: l₂) := by simp
  have hprev : h.prev item = (head :: l₁).getLast (by simp) := hs₁.prev_eq
  have hnext : h.next item = (l₂ ++ [head]).head (by simp) := hs₂.next_eq
  generalize hp : (head :: l₁).getLast (by simp) = p at hprev
  generalize hn : (l₂ ++ [head]).head (by simp) = n at hnext
  have hpm : p ∈ head :: l₁ := hp ▸ List.getLast_mem _
  have hnm : n ∈ l₂ ++ [head] := hn ▸ List.head_mem _
  have hnm' : n ∈ head :: (l₁ ++ item :: l₂) := by
    rcases List.mem_append.1 hnm with hm | hm
    · simp [hm]
    · simp [List.mem_singleton.1 hm]
  have hpm' : p ∈ head :: (l₁ ++ item :: l₂) := by
    rcases List.mem_cons.1 hpm with hm | hm
    · simp [hm]
    · simp [hm]
  have hne : item ≠ n := by
    intro he
    rcases List.mem_append.1 hnm with hm | hm
    · exact (List.nodup_cons.1 hd₂).1 (he ▸ hm)
    · exact hdis head List.mem_cons_self item List.mem_cons_self
        ((List.mem_singleton.1 hm).symm.trans he.symm)
  let next' := Function.update h.next p n
  let prev' := Function.update h.prev n p
  refine ⟨⟨h.live, next', prev'⟩, ?_, rfl, ?_⟩
  · simp [Heap.remove, Heap.setNext, Heap.setPrev, Heap.getPrev, Heap.getNext, hl.live_head hi,
      hl.live_head hnm', hl.live_head hpm', hprev, hnext, Function.update_of_ne hne, next', prev']
  have hnext' : ∀ a, a ≠ p → next' a = h.next a := fun a ha => Function.update_of_ne ha _ _
  have hprev' : ∀ a, a ≠ n → prev' a = h.prev a := fun a ha => Function.update_of_ne ha _ _
  have hsub : ∀ a ∈ head :: (l₁ ++ l₂), a ∈ head :: (l₁ ++ item :: l₂) := by
    intro a ha
    rcases List.mem_cons.1 ha with rfl | ha
    · exact List.mem_cons_self
    · rcases List.mem_append.1 ha with ha | ha <;> simp [ha]
  -- from the head to the node before the item, and from there to the one behind it
  have htop : Seg ⟨h.live, next', prev'⟩ head l₁ n := by
    refine hs₁.retarget hd₁ (fun x hx => hprev' x fun he => ?_)
      (fun x _ hxl => hnext' x (hp ▸ hxl)) ?_ ?_
    · rcases List.mem_append.1 hnm with hm | hm
      · exact hdis x (List.mem_cons_of_mem _ hx) n (List.mem_cons_of_mem _ hm) he
      · exact (List.nodup_cons.1 hd₁).1 ((he.trans (List.mem_singleton.1 hm)) ▸ hx)
    · rw [hp]
      simp [next']
    · rw [hp]
      simp [prev']
  refine cons ?_ ?_ (fun a ha => hl.live_head (hsub a ha))
    (fun a ha => hl.notMem_tail (hsub a ha)) (hl.tail.congr rfl (fun a ha => ?_) fun a ha => ?_)
  · cases l₂ with
    | nil =>
      have hnh : head = n := by simpa using hn
      rw [List.append_nil]
      exact hnh ▸ htop
    | cons y l₂ =>
      have hny : y = n := by simpa using hn
      subst hny
      refine seg_append.2 ⟨htop, hs₂.2.2.congr (fun x hx => hnext' x fun he => ?_)
        fun x hx => hprev' x fun he => ?_⟩
      · exact hdis p hpm x (List.mem_cons_of_mem _ hx) he.symm
      · rcases List.mem_append.1 hx with hx | hx
        · exact (List.nodup_cons.1 (List.nodup_cons.1 hd₂).2).1 (he ▸ hx)
        · exact hdis head List.mem_cons_self y (by simp) ((List.mem_singleton.1 hx).symm.trans he)
  · have hsubl : (head :: (l₁ ++ l₂)).Sublist (head :: l₁ ++ item :: l₂) := by
      simp
    exact hsubl.nodup hd
  · exact hnext' a fun he => hl.notMem_tail hpm' (he ▸ ha)
  · exact hprev' a fun he => hl.notMem_tail hnm' (he ▸ ha)

end Lists

/-! ## Nodes that come and go -/

/-- The heap holds the lists `rs`, and no other node is live. -/
structure Owns (h : Heap N) (rs : List (N × List N)) : Prop extends Lists h rs where
  complete : ∀ a, h.live a = true → a ∈ nodes rs

namespace Owns

variable {rs rs' : List (N × List N)} {head item : N} {l l₁ l₂ : List N}

theorem live_iff (ho : Owns h rs) {a : N} : h.live a = true ↔ a ∈ nodes rs :=
  ⟨ho.complete a, ho.live a⟩

theorem notMem (ho : Owns h rs) {a : N} (ha : h.live a = false) : a ∉ nodes rs := fun hm => by
  simp [ho.live a hm] at ha

theorem perm (ho : Owns h rs) (hp : rs.Perm rs') : Owns h rs' where
  toLists := ho.toLists.perm hp
  complete := fun a ha => (hp.flatMap_right _).mem_iff.1 (ho.complete a ha)

variable [DecidableEq N]

/-- A new item. -/
theorem newItem (ho : Owns h ((head, l) :: rs)) (hi : h.live item = false) :
    ∃ h₁ h₂, (h.alloc item).init item = some h₁ ∧ h₁.addTail head item = some h₂
      ∧ Owns h₂ ((head, l ++ [item]) :: rs) := by
  have hm := ho.notMem hi
  obtain ⟨h₁, e₁, hlive₁, hl₁⟩ :=
    (ho.toLists.alloc item).init _ hm (by simp [Heap.alloc])
  obtain ⟨h₂, e₂, hlive₂, hl₂⟩ := hl₁.tail.addTail hm (by simp [hlive₁, Heap.alloc])
  refine ⟨h₁, h₂, e₁, e₂, hl₂, fun a ha => ?_⟩
  by_cases he : a = item
  · simp [he]
  · have hlive : h.live a = true := by
      simpa [hlive₂, hlive₁, Heap.alloc, Function.update_of_ne he] using ha
    have := ho.complete a hlive
    simp only [nodes_cons, List.mem_append, List.mem_cons] at this ⊢
    tauto

/-- An item is taken off its list and freed. -/
theorem dropItem (ho : Owns h ((head, l₁ ++ item :: l₂) :: rs)) :
    ∃ h₁ h₂, h.remove item = some h₁ ∧ h₁.free item = some h₂
      ∧ Owns h₂ ((head, l₁ ++ l₂) :: rs) := by
  obtain ⟨h₁, e₁, hlive₁, hl₁⟩ := ho.toLists.remove
  have hi : item ∈ nodes ((head, l₁ ++ item :: l₂) :: rs) := by simp
  have hd := ho.nodup
  have hni : item ∉ nodes ((head, l₁ ++ l₂) :: rs) := by
    have hp : (nodes ((head, l₁ ++ item :: l₂) :: rs)).Perm
        (item :: nodes ((head, l₁ ++ l₂) :: rs)) := by
      simp only [nodes_cons, List.cons_append, List.append_assoc]
      exact (List.perm_middle.cons head).trans (List.Perm.swap _ _ _)
    exact (List.nodup_cons.1 (hp.nodup_iff.1 hd)).1
  obtain ⟨h₂, e₂, hlive₂, hl₂⟩ := hl₁.free hni (by rw [hlive₁]; exact ho.live _ hi)
  refine ⟨h₁, h₂, e₁, e₂, hl₂, fun a ha => ?_⟩
  have hne : a ≠ item := by
    rintro rfl
    simp [hlive₂] at ha
  rw [hlive₂, hlive₁, Function.update_of_ne hne] at ha
  have := ho.complete a ha
  simp only [nodes_cons, List.mem_append, List.mem_cons] at this ⊢
  tauto

/-- The head of an empty list is freed. -/
theorem freeHead (ho : Owns h ((head, []) :: rs)) :
    ∃ h', h.free head = some h' ∧ Owns h' rs := by
  obtain ⟨h', e, hlive, hl⟩ := ho.toLists.tail.free
    (ho.toLists.notMem_tail List.mem_cons_self) (ho.live_head List.mem_cons_self)
  refine ⟨h', e, hl, fun a ha => ?_⟩
  have hne : a ≠ head := by
    rintro rfl
    simp [hlive] at ha
  rw [hlive, Function.update_of_ne hne] at ha
  have := ho.complete a ha
  simpa [hne] using this

end Owns

variable [DecidableEq N]

/-- The loop from `node` on, until it comes to the head or its body breaks it off. The body may
write to the heap. -/
def forEach (links : σ → Heap N) (body : N → σ → Option (σ × Bool)) (head : N) :
    ℕ → N → σ → Option σ
  | 0, _, _ => none
  | fuel + 1, node, s =>
    if node = head then some s
    else do
      let (s, stop) ← body node s
      if stop then some s else forEach links body head fuel (← (links s).getNext node) s

theorem forEach_cons {links : σ → Heap N} {body : N → σ → Option (σ × Bool)} {head x : N}
    (hx : x ≠ head) (fuel : ℕ) (s : σ) :
    forEach links body head (fuel + 1) x s = (body x s).bind fun r =>
      if r.2 then some r.1
      else ((links r.1).getNext x).bind fun node => forEach links body head fuel node r.1 := by
  rw [forEach, if_neg hx]
  rfl

variable {links : σ → Heap N} {body : N → σ → Option (σ × Bool)} {head : N}
  {rs : List (N × List N)}

theorem forEach_nil (fuel : ℕ) (s : σ) : forEach links body head (fuel + 1) head s = some s := by
  rw [forEach, if_pos rfl]

/-- A body that goes past the items `l` leaves the loop at what comes after them. -/
theorem forEach_skip {s : σ} (l₂ : List N) (fuel : ℕ) : ∀ (l before : List N),
    Lists (links s) ((head, before ++ (l ++ l₂)) :: rs) → (∀ x ∈ l, body x s = some (s, false)) →
      forEach links body head (l.length + fuel) ((l ++ l₂ ++ [head]).head (by simp)) s
        = forEach links body head fuel ((l₂ ++ [head]).head (by simp)) s
  | [], _, _, _ => by simp
  | x :: l, before, hl, hb => by
    have hx : x ≠ head := fun he => (List.nodup_cons.1 hl.nodup_head).1 (by simp [he])
    have ih := forEach_skip l₂ fuel l (before ++ [x]) (by simpa using hl)
      fun y hy => hb y (List.mem_cons_of_mem _ hy)
    have hfuel : (x :: l).length + fuel = l.length + fuel + 1 := by
      rw [List.length_cons]
      omega
    rw [← ih, hfuel]
    refine (forEach_cons hx _ s).trans ?_
    have hnext : (links s).getNext x = some ((l ++ l₂ ++ [head]).head (by simp)) :=
      hl.getNext_item
    simp [hb x List.mem_cons_self, hnext]

/-- A body that goes past the items that fail a test, and breaks off at the first that passes. -/
theorem forEach_first {α : Type*} {f : α → N} {s : σ} {test : α → Bool} (act : α → Option σ) :
    ∀ (l : List α) (before : List N) (fuel : ℕ),
      Lists (links s) ((head, before ++ l.map f) :: rs) →
      (∀ x ∈ l, body (f x) s = if test x then (act x).map (·, true) else some (s, false)) →
      l.length < fuel →
      forEach links body head fuel ((l.map f ++ [head]).head (by simp)) s
        = (l.find? test).elim (some s) act
  | [], _, fuel + 1, _, _, _ => forEach_nil fuel s
  | x :: l, before, fuel + 1, hl, hb, hf => by
    have hx : f x ≠ head := fun he => (List.nodup_cons.1 hl.nodup_head).1 (by simp [he])
    refine (forEach_cons hx fuel s).trans ?_
    rw [hb x List.mem_cons_self, List.find?_cons]
    cases test x with
    | true => cases hact : act x <;> simp [hact]
    | false =>
      have ih := forEach_first act l (before ++ [f x]) fuel (by simpa using hl)
        (fun y hy => hb y (List.mem_cons_of_mem _ hy)) (by simpa using hf)
      have hnext : (links s).getNext (f x) = some ((l.map f ++ [head]).head (by simp)) :=
        Lists.getNext_item (by simpa using hl)
      simpa [hnext] using ih

/-- A body that does not write to the list and goes on. -/
theorem forEach_fold {α : Type*} {f : α → N} {g : α → σ → σ} {P : σ → Prop} {h : Heap N}
    (hlinks : ∀ s, P s → links s = h) :
    ∀ (l : List α) (before : List N) (fuel : ℕ) (s : σ),
      Lists h ((head, before ++ l.map f) :: rs) → P s →
      (∀ x ∈ l, ∀ s, P s → body (f x) s = some (g x s, false) ∧ P (g x s)) → l.length < fuel →
      forEach links body head fuel ((l.map f ++ [head]).head (by simp)) s
        = some (l.foldl (fun s x => g x s) s)
  | [], _, fuel + 1, s, _, _, _, _ => forEach_nil fuel s
  | x :: l, before, fuel + 1, s, hl, hs, hb, hf => by
    have hx : f x ≠ head := fun he => (List.nodup_cons.1 hl.nodup_head).1 (by simp [he])
    obtain ⟨hbx, hpx⟩ := hb x List.mem_cons_self s hs
    have ih := forEach_fold hlinks l (before ++ [f x]) fuel _ (by simpa using hl) hpx
      (fun y hy => hb y (List.mem_cons_of_mem _ hy)) (by simpa using hf)
    have hnext : h.getNext (f x) = some ((l.map f ++ [head]).head (by simp)) :=
      Lists.getNext_item (by simpa using hl)
    refine (forEach_cons hx fuel s).trans ?_
    simpa [hbx, hlinks _ hpx, hnext] using ih

/-- A body that goes past all items but one. -/
theorem forEach_one {s s' : σ} {x : N} {l₁ l₂ : List N} {rs' : List (N × List N)} {fuel : ℕ}
    (hl : Lists (links s) ((head, l₁ ++ x :: l₂) :: rs))
    (hl' : Lists (links s') ((head, l₁ ++ x :: l₂) :: rs'))
    (h₁ : ∀ y ∈ l₁, body y s = some (s, false)) (hx : body x s = some (s', false))
    (h₂ : ∀ y ∈ l₂, body y s' = some (s', false)) (hf : (l₁ ++ x :: l₂).length < fuel) :
    forEach links body head fuel ((l₁ ++ x :: l₂ ++ [head]).head (by simp)) s = some s' := by
  have hxh : x ≠ head := fun he => (List.nodup_cons.1 hl.nodup_head).1 (by simp [he])
  obtain ⟨k, rfl⟩ : ∃ k, fuel = l₁.length + (l₂.length + (k + 1) + 1) := by
    rw [List.length_append, List.length_cons] at hf
    exact ⟨fuel - l₁.length - l₂.length - 2, by omega⟩
  rw [forEach_skip (x :: l₂) _ l₁ [] hl h₁]
  refine (forEach_cons hxh _ s).trans ?_
  have htail := forEach_skip [] (k + 1) l₂ (l₁ ++ [x]) (by simpa using hl') h₂
  have hnil : forEach links body head (k + 1) head s' = some s' := forEach_nil k s'
  simp only [List.append_nil] at htail
  simpa [hx, hl'.getNext_item, htail] using hnil

end Circular
