import BananaWrt.QmiProxyHeap

/-!
# The lists of the QMI proxy and its heap

Each function on the heap works wherever the heap holds the lists of a state, writes what the
function on the lists writes, and leaves a heap that holds the lists that this function leaves.
-/

namespace BananaWrt

namespace QmiProxyHeap

open Bytes Qmi QmiProxy Circular

variable {m m' : Mem} {y : Layout}

section

variable {α : Type*} {head : Node} {f : α → Node} {l : List α} {rs : List (Node × List Node)}
  {fuel : ℕ} {body : Node → Mem → Option (Mem × Bool)}

/-- A loop that only writes. -/
theorem forEach_send {g : α → List Out} (hl : Lists m.links ((head, l.map f) :: rs))
    (hb : ∀ x ∈ l, ∀ o, body (f x) { m with out := o } = some ({ m with out := o ++ g x }, false))
    (hf : l.length < fuel) :
    m.forEach head fuel body = some { m with out := m.out ++ l.flatMap g } := by
  have hfold : ∀ (l : List α) (o : List Out),
      l.foldl (fun s x => ({ s with out := s.out ++ g x } : Mem)) { m with out := o }
        = { m with out := o ++ l.flatMap g } := by
    intro l
    induction l with
    | nil => simp
    | cons x l ih => exact fun o => by simp [ih]
  rw [Mem.forEach, hl.getNext_head, Option.bind_eq_bind, Option.bind_some]
  refine (forEach_fold (P := fun s => ∃ o, s = { m with out := o })
    (g := fun x s => { s with out := s.out ++ g x }) (fun s ⟨o, hs⟩ => hs ▸ rfl) l [] fuel m hl
    ⟨m.out, rfl⟩ (fun x hx s hs => ?_) hf).trans (congrArg some (hfold l m.out))
  obtain ⟨o, rfl⟩ := hs
  exact ⟨hb x hx o, o ++ g x, rfl⟩

/-- A loop that drops the first record that passes a test. -/
theorem forEach_drop {test : α → Bool} (ho : Owns m.links ((head, l.map f) :: rs))
    (hb : ∀ x ∈ l, body (f x) m
      = if test x then (m.drop (f x)).map (·, true) else some (m, false))
    (hf : l.length < fuel) :
    ∃ h, m.forEach head fuel body = some { m with links := h } ∧
      Owns h ((head, (l.eraseP test).map f) :: rs) := by
  rw [Mem.forEach, ho.getNext_head, Option.bind_eq_bind, Option.bind_some,
    forEach_first (fun x => m.drop (f x)) l [] fuel ho.toLists hb hf]
  cases hfind : l.find? test with
  | none =>
    rw [List.eraseP_of_forall_not fun x hx => by simpa using List.find?_eq_none.1 hfind x hx]
    exact ⟨m.links, rfl, ho⟩
  | some x =>
    obtain ⟨hx, l₁, l₂, rfl, hl₁⟩ := List.find?_eq_some_iff_append.1 hfind
    rw [List.map_append, List.map_cons] at ho
    obtain ⟨h₁, h₂, e₁, e₂, ho₂⟩ := ho.dropItem
    refine ⟨h₂, by simp [Mem.drop, e₁, e₂], ?_⟩
    rw [List.eraseP_append_right _ (by simpa using hl₁), List.eraseP_cons_of_pos hx,
      List.map_append]
    exact ho₂

end

theorem mem_nodes_rings {n : Node} : n ∈ nodes y.rings ↔
    n = .qmiProxyConnection ∨ n = .qmiProxyCtlMsg ∨
      (∃ x ∈ y.cons, n = .con x.1 ∨ n = .clientQnode x.1 ∨ ∃ c ∈ x.2, n = .client c) ∨
      ∃ b ∈ y.msgs, n = .msg b := by
  simp only [mem_nodes, Layout.rings, Layout.clientRing, List.mem_cons, List.mem_map,
    exists_eq_or_imp, or_assoc]
  constructor
  · rintro (h | ⟨x, hx, rfl⟩ | h | ⟨b, hb, rfl⟩ | ⟨_, ⟨x, hx, rfl⟩, h | h⟩)
    · exact .inl h
    · exact .inr (.inr (.inl ⟨x, hx, .inl rfl⟩))
    · exact .inr (.inl h)
    · exact .inr (.inr (.inr ⟨b, hb, rfl⟩))
    · exact .inr (.inr (.inl ⟨x, hx, .inr (.inl h)⟩))
    · obtain ⟨c, hc, rfl⟩ := List.mem_map.1 h
      exact .inr (.inr (.inl ⟨x, hx, .inr (.inr ⟨c, hc, rfl⟩)⟩))
  · rintro (h | h | ⟨x, hx, h | h | ⟨c, hc, rfl⟩⟩ | ⟨b, hb, rfl⟩)
    · exact .inl h
    · exact .inr (.inr (.inl h))
    · exact .inr (.inl ⟨x, hx, h.symm⟩)
    · exact .inr (.inr (.inr (.inr ⟨_, ⟨x, hx, rfl⟩, .inl h⟩)))
    · exact .inr (.inr (.inr (.inr ⟨_, ⟨x, hx, rfl⟩, .inr (List.mem_map.2 ⟨c, hc, rfl⟩)⟩)))
    · exact .inr (.inr (.inr (.inl ⟨b, hb, rfl⟩)))

theorem Holds.live_con (hm : Holds m y) {x : ℕ × List ℕ} (hx : x ∈ y.cons) :
    m.links.live (.con x.1) = true :=
  hm.owns.live_iff.2 (mem_nodes_rings.2 (.inr (.inr (.inl ⟨x, hx, .inl rfl⟩))))

theorem Holds.live_client (hm : Holds m y) {x : ℕ × List ℕ} (hx : x ∈ y.cons) {c : ℕ}
    (hc : c ∈ x.2) : m.links.live (.client c) = true :=
  hm.owns.live_iff.2 (mem_nodes_rings.2 (.inr (.inr (.inl ⟨x, hx, .inr (.inr ⟨c, hc, rfl⟩)⟩))))

theorem Holds.live_msg (hm : Holds m y) {b : ℕ} (hb : b ∈ y.msgs) :
    m.links.live (.msg b) = true :=
  hm.owns.live_iff.2 (mem_nodes_rings.2 (.inr (.inr (.inr ⟨b, hb, rfl⟩))))

/-- A record other than the one that is new. -/
theorem ne_of_live {n : ℕ → Node} {a b : ℕ} (ha : m.links.live (n a) = false)
    (hb : m.links.live (n b) = true) : b ≠ a := by
  rintro rfl
  simp [ha] at hb

theorem Holds.readCon (hm : Holds m y) {x : ℕ × List ℕ} (hx : x ∈ y.cons) :
    m.readCon (.con x.1) = some (x.1, m.conRec x.1) :=
  if_pos (hm.live_con hx)

/-- The lists of a layout but for the clients of `x`. -/
def restRings (k₁ k₂ : List (ℕ × List ℕ)) (x : ℕ) (msgs : List ℕ) : List (Node × List Node) :=
  (.qmiProxyConnection, k₁.map (fun z => .con z.1) ++ .con x :: k₂.map fun z => .con z.1) ::
    (.qmiProxyCtlMsg, msgs.map .msg) :: (k₁ ++ k₂).map Layout.clientRing

theorem perm_third {α : Type*} (a b c : α) (l : List α) :
    (a :: b :: c :: l).Perm (c :: a :: b :: l) :=
  ((List.Perm.swap c b l).cons a).trans (List.Perm.swap c a _)

theorem rings_perm (k₁ k₂ : List (ℕ × List ℕ)) (x : ℕ × List ℕ) (msgs : List ℕ) :
    (Layout.mk (k₁ ++ x :: k₂) msgs).rings.Perm
      (Layout.clientRing x :: restRings k₁ k₂ x.1 msgs) := by
  have h : ((k₁ ++ x :: k₂).map Layout.clientRing).Perm
      (Layout.clientRing x :: (k₁ ++ k₂).map Layout.clientRing) :=
    List.perm_middle.map Layout.clientRing
  rw [Layout.rings, restRings, List.map_append, List.map_cons]
  exact ((h.cons _).cons _).trans (perm_third _ _ _ _)

theorem rings_perm_msgs (y : Layout) :
    y.rings.Perm ((.qmiProxyCtlMsg, y.msgs.map .msg) ::
      (.qmiProxyConnection, y.cons.map fun x => .con x.1) :: y.cons.map Layout.clientRing) :=
  List.Perm.swap _ _ _

section

variable {a : ℕ} {cs : List ℕ} {rs : List (Node × List Node)} {fuel : ℕ}

theorem freeClients_spec : ∀ {cs : List ℕ} {fuel : ℕ} {m : Mem},
    Owns m.links ((.clientQnode a, cs.map .client) :: rs) → cs.length < fuel →
      ∃ h, m.freeClients a fuel = some { m with links := h }
        ∧ Owns h ((.clientQnode a, []) :: rs)
  | [], fuel + 1, m, ho, _ => by
    have hfirst : m.links.getNext (.clientQnode a) = some (.clientQnode a) := ho.getNext_head
    exact ⟨m.links, by simp [Mem.freeClients, hfirst], ho⟩
  | c :: cs, fuel + 1, m, ho, hf => by
    have hfirst : m.links.getNext (.clientQnode a) = some (.client c) := ho.getNext_head
    have hlive : m.links.live (.client c) = true := ho.live_head (by simp)
    have ho₀ : Owns m.links ((.clientQnode a, [] ++ .client c :: cs.map .client) :: rs) := ho
    obtain ⟨h₁, h₂, e₁, e₂, ho₂⟩ := ho₀.dropItem
    obtain ⟨h, e, ho'⟩ := freeClients_spec (m := { m with links := h₂ }) ho₂
      (Nat.lt_of_succ_lt_succ hf)
    refine ⟨h, ?_, ho'⟩
    simp [Mem.freeClients, hfirst, Mem.readClient, hlive, Mem.drop, e₁, e₂, e]

theorem dropMsg_spec {bs : List ℕ} (fd : ℕ)
    (ho : Owns m.links ((.qmiProxyCtlMsg, bs.map .msg) :: rs)) (hf : bs.length < fuel) :
    ∃ h, m.dropMsg fuel fd = some { m with links := h } ∧
      Owns h ((.qmiProxyCtlMsg, (bs.eraseP fun b => (m.msg b).clientFd = fd).map .msg) :: rs) := by
  refine forEach_drop ho (fun b hb => ?_) hf
  have hlive : m.links.live (.msg b) = true := ho.live_head (by simp [hb])
  simp only [Mem.readMsg, hlive, if_true, Option.bind_eq_bind, Option.bind_some, decide_eq_true_eq]
  split
  · cases m.drop (.msg b) <;> rfl
  · rfl

theorem releaseClientId_spec (pQMI : Bytes)
    (ho : Owns m.links ((.clientQnode a, cs.map .client) :: rs)) (hf : cs.length < fuel)
    (hr : ctlResult pQMI = 0 ∧ ctlError pQMI = 0) :
    ∃ h, m.releaseClientId fuel a pQMI = some { m with links := h } ∧
      Owns h ((.clientQnode a, (cs.eraseP fun c => m.client c = ctlRspPair pQMI).map .client)
        :: rs) := by
  rw [Mem.releaseClientId, if_pos hr]
  refine forEach_drop ho (fun c hc => ?_) hf
  have hlive : m.links.live (.client c) = true := ho.live_head (by simp [hc])
  simp only [Mem.readClient, hlive, if_true, Option.bind_eq_bind, Option.bind_some,
    decide_eq_true_eq]
  split
  · cases m.drop (.client c) <;> rfl
  · rfl

theorem getClientId_spec {new : ℕ} (pQMI : Bytes)
    (ho : Owns m.links ((.clientQnode a, cs.map .client) :: rs))
    (hn : m.links.live (.client new) = false) (hr : ctlResult pQMI = 0 ∧ ctlError pQMI = 0) :
    ∃ h, m.getClientId a new pQMI = some { m with
        links := h
        client := Function.update m.client new (ctlRspPair pQMI) } ∧
      Owns h ((.clientQnode a, (cs ++ [new]).map .client) :: rs) := by
  obtain ⟨h₁, h₂, e₁, e₂, ho₂⟩ := ho.newItem hn
  refine ⟨h₂, by simp [Mem.getClientId, hr, e₁, e₂], ?_⟩
  rw [List.map_append]
  exact ho₂

/-- `r` is `m` with other clients in the connection at `a`, those that `f` gives it. -/
def Settles (m : Mem) (a : ℕ) (cs : List ℕ) (rs : List (Node × List Node)) (r : Option Mem)
    (f : Connection → Connection) : Prop :=
  ∃ h client, ∃ cs' : List ℕ, r = some { m with links := h, client := client } ∧
    Owns h ((.clientQnode a, cs'.map .client) :: rs) ∧
    (∀ c, m.links.live (.client c) = true → client c = m.client c) ∧
    (∀ fd con, f ⟨fd, cs.map m.client, con⟩ = ⟨fd, cs'.map client, con⟩) ∧
    cs'.length ≤ cs.length + 1

theorem Settles.same (ho : Owns m.links ((.clientQnode a, cs.map .client) :: rs)) :
    Settles m a cs rs (some m) fun qmiCon => qmiCon :=
  ⟨m.links, m.client, cs, rfl, ho, fun _ _ => rfl, fun _ _ => rfl, Nat.le_succ _⟩

theorem settleClients_spec (new : ℕ) (pQMI : Bytes)
    (ho : Owns m.links ((.clientQnode a, cs.map .client) :: rs))
    (hn : m.links.live (.client new) = false) (hf : cs.length < fuel) :
    Settles m a cs rs (m.settleClients fuel a new pQMI) (QmiProxy.settleClients · pQMI) := by
  unfold Mem.settleClients QmiProxy.settleClients
  by_cases hr : ctlResult pQMI = 0 ∧ ctlError pQMI = 0
  swap
  · simpa [Mem.getClientId, Mem.releaseClientId, QmiProxy.getClientId, QmiProxy.releaseClientId,
      hr] using Settles.same ho
  split_ifs with hget hrel
  · obtain ⟨h, e, ho'⟩ := getClientId_spec pQMI ho hn hr
    refine ⟨h, _, cs ++ [new], e, ho', fun c hc => Function.update_of_ne (ne_of_live hn hc) _ _,
      fun fd con => ?_, by simp⟩
    have hcs : cs.map (Function.update m.client new (ctlRspPair pQMI)) = cs.map m.client :=
      List.map_congr_left fun c hc =>
        Function.update_of_ne (ne_of_live hn (ho.live_head (by simp [hc]))) _ _
    simp [QmiProxy.getClientId, hr, hcs]
  · obtain ⟨h, e, ho'⟩ := releaseClientId_spec pQMI ho hf hr
    refine ⟨h, m.client, _, e, ho', fun _ _ => rfl, fun fd con => ?_,
      Nat.le_succ_of_le List.length_eraseP_le⟩
    have hp : ((ctlRspPair pQMI == ·) ∘ m.client)
        = fun c => decide (m.client c = ctlRspPair pQMI) := by
      funext c
      rw [Function.comp, beq_eq_decide]
      exact decide_eq_decide.2 eq_comm
    simp [QmiProxy.releaseClientId, hr, List.erase_eq_eraseP, List.eraseP_map, hp]
  · exact Settles.same ho

end

/-! ## The functions -/

/-- The function on the heap returns, with the lists and the writes of the function on lists. -/
def Simulates (m : Mem) (y : Layout) (r : Option Mem) (q : Proxy × List Out) : Prop :=
  ∃ m' y', r = some m' ∧ Holds m' y' ∧ m'.abs y' = q.1 ∧ m'.out = m.out ++ q.2 ∧
    ∀ k, y.Within k → y'.Within (k + 1)

theorem Layout.Within.succ {k : ℕ} (hk : y.Within k) : y.Within (k + 1) :=
  ⟨Nat.le_succ_of_le hk.cons, fun x hx => Nat.le_succ_of_le (hk.clients x hx),
    Nat.le_succ_of_le hk.msgs⟩

theorem Holds.accept (hm : Holds m y) {a clientfd : ℕ} (con : ℕ)
    (he : Env m (.accept clientfd con, a)) :
    Simulates m y (m.acceptQmiConnection a clientfd con)
      (QmiProxy.acceptQmiConnection (m.abs y) clientfd con, []) := by
  have hcon : Node.con a ∉ nodes y.rings := hm.owns.notMem (he.fresh _ (.inl rfl))
  have hqnode : Node.clientQnode a ∉ nodes y.rings :=
    hm.owns.notMem (he.fresh _ (.inr (.inl rfl)))
  have hl := (hm.owns.toLists.alloc (.con a)).alloc (.clientQnode a)
  obtain ⟨h₁, e₁, hlive₁, hl₁⟩ := hl.init _ hcon (by simp)
  obtain ⟨h₂, e₂, hlive₂, hl₂⟩ := hl₁.tail.init _ hqnode (by simp [hlive₁])
  have hne : Node.con a ∉ nodes ((Node.qmiProxyConnection, y.cons.map fun x => Node.con x.1) ::
      (Node.clientQnode a, []) :: y.rings.tail) := by
    intro h
    refine hcon ?_
    simpa [Layout.rings] using h
  obtain ⟨h₃, e₃, hlive₃, hl₃⟩ := (hl₂.perm (List.Perm.swap _ _ _)).addTail hne
    (by simp [hlive₂, hlive₁])
  have hperm : ((Node.qmiProxyConnection, (y.cons.map fun x => Node.con x.1) ++ [Node.con a]) ::
      (Node.clientQnode a, []) :: y.rings.tail).Perm
        (Layout.mk (y.cons ++ [(a, [])]) y.msgs).rings := by
    simp only [Layout.rings, List.map_append, List.map_cons, List.map_nil]
    exact (List.perm_append_singleton _ _).symm.cons _
  have hconRec : ∀ x ∈ y.cons, Function.update m.conRec a ⟨clientfd, con⟩ x.1 = m.conRec x.1 :=
    fun x hx => Function.update_of_ne (ne_of_live (he.fresh _ (.inl rfl)) (hm.live_con hx)) _ _
  refine ⟨{ m with links := h₃, conRec := Function.update m.conRec a ⟨clientfd, con⟩ },
    ⟨y.cons ++ [(a, [])], y.msgs⟩, by simp [Mem.acceptQmiConnection, e₁, e₂, e₃],
    ⟨⟨hl₃.perm hperm, fun n hn => ?_⟩, ?_⟩, ?_, by simp, fun k hk => ⟨?_, ?_, ?_⟩⟩
  · have hn' : n = .clientQnode a ∨ n = .con a ∨ m.links.live n = true := by
      simpa [hlive₃, hlive₂, hlive₁] using hn
    rw [mem_nodes_rings]
    rcases hn' with rfl | rfl | hn
    · exact .inr (.inr (.inl ⟨(a, []), by simp, .inr (.inl rfl)⟩))
    · exact .inr (.inr (.inl ⟨(a, []), by simp, .inl rfl⟩))
    · refine (mem_nodes_rings.1 (hm.owns.complete n hn)).imp_right (.imp_right (.imp_left ?_))
      rintro ⟨x, hx, hnx⟩
      exact ⟨x, List.mem_append_left _ hx, hnx⟩
  · rw [List.map_append, List.map_congr_left (g := fun x => (m.conRec x.1).clientFd)
      fun x hx => congrArg ConRec.clientFd (hconRec x hx)]
    refine List.nodup_append.2 ⟨hm.fds, by simp, fun fd hfd fd' hfd' => ?_⟩
    obtain ⟨x, hx, rfl⟩ := List.mem_map.1 hfd
    simpa [show fd' = clientfd by simpa using hfd'] using
      he.newFd clientfd con rfl x.1 (hm.live_con hx)
  · have habs : y.cons.map (Mem.absCon { m with
        links := h₃, conRec := Function.update m.conRec a ⟨clientfd, con⟩ })
        = y.cons.map m.absCon :=
      List.map_congr_left fun x hx => by simp [Mem.absCon, hconRec x hx]
    simp [Mem.abs, QmiProxy.acceptQmiConnection, habs]
    simp [Mem.absCon]
  · simpa using hk.cons
  · intro x hx
    rcases List.mem_append.1 hx with hx | hx
    · exact Nat.le_succ_of_le (hk.clients x hx)
    · simp [List.mem_singleton.1 hx]
  · exact Nat.le_succ_of_le hk.msgs

theorem closeConnection_spec (k₁ k₂ : List (ℕ × List ℕ)) (x : ℕ × List ℕ) {msgs : List ℕ}
    {fuel : ℕ} (ho : Owns m.links (Layout.mk (k₁ ++ x :: k₂) msgs).rings)
    (hx : x.2.length < fuel) (hmsgs : msgs.length < fuel) (fd : ℕ) :
    ∃ h, m.closeConnection fuel x.1 fd = some { m with links := h } ∧
      Owns h (Layout.mk (k₁ ++ k₂) (msgs.eraseP fun b => (m.msg b).clientFd = fd)).rings := by
  obtain ⟨h₁, e₁, ho₁⟩ := freeClients_spec (ho.perm (rings_perm k₁ k₂ x msgs)) hx
  obtain ⟨h₂, e₂, ho₂⟩ := dropMsg_spec (m := { m with links := h₁ }) fd
    (ho₁.perm (perm_third _ _ _ _)) hmsgs
  obtain ⟨h₃, h₄, e₃, e₄, ho₄⟩ := (ho₂.perm (perm_third _ _ _ _)).dropItem
  obtain ⟨h₅, e₅, ho₅⟩ := (ho₄.perm (perm_third _ _ _ _)).freeHead
  refine ⟨h₅, by simp [Mem.closeConnection, e₁, e₂, Mem.drop, e₃, e₄, e₅], ?_⟩
  rw [← List.map_append] at ho₅
  exact ho₅

theorem Holds.cleanup (hm : Holds m y) {k fuel : ℕ} (hk : y.Within k) (hf : k < fuel)
    (clientfd : ℕ) :
    Simulates m y (m.cleanupQmiConnection fuel clientfd)
      (QmiProxy.cleanupQmiConnection (m.abs y) clientfd, []) := by
  let p : ℕ × List ℕ → Bool := fun x => (m.conRec x.1).clientFd = clientfd
  have hloop : m.cleanupQmiConnection fuel clientfd = (y.cons.find? p).elim (some m) fun x =>
      m.closeConnection fuel x.1 clientfd := by
    rw [Mem.cleanupQmiConnection, Mem.forEach, hm.owns.getNext_head, Option.bind_eq_bind,
      Option.bind_some]
    refine forEach_first _ y.cons [] fuel hm.owns.toLists (fun x hx => ?_)
      (Nat.lt_of_le_of_lt hk.cons hf)
    simp only [hm.readCon hx, Option.bind_eq_bind, Option.bind_some, p, decide_eq_true_eq]
    split
    · rename_i hfd
      rw [hfd]
      cases m.closeConnection fuel x.1 clientfd <;> rfl
    · rfl
  have hp : ∀ x, p x = decide ((m.absCon x).clientFd = clientfd) := fun _ => rfl
  rw [hloop]
  cases hfind : y.cons.find? p with
  | none =>
    have hany : (m.abs y).connections.any (·.clientFd = clientfd) = false := by
      simpa [Mem.abs, hp] using hfind
    refine ⟨m, y, rfl, hm, ?_, by simp, fun k hk => hk.succ⟩
    rw [QmiProxy.cleanupQmiConnection, if_neg (by simp [hany])]
  | some x =>
    obtain ⟨hx, k₁, k₂, hcons, hk₁⟩ := List.find?_eq_some_iff_append.1 hfind
    have hany : (m.abs y).connections.any (·.clientFd = clientfd) = true := by
      simpa [Mem.abs, hcons] using .inr (.inl (of_decide_eq_true hx))
    have hxm : x ∈ y.cons := by simp [hcons]
    obtain ⟨h, e, ho⟩ := closeConnection_spec k₁ k₂ x (m := m)
      (by rw [← hcons]; exact hm.owns) (Nat.lt_of_le_of_lt (hk.clients x hxm) hf)
      (Nat.lt_of_le_of_lt hk.msgs hf) clientfd
    have hsub : (k₁ ++ k₂).Sublist y.cons := by simp [hcons]
    refine ⟨{ m with links := h }, _, e, ⟨ho, (hsub.map _).nodup hm.fds⟩, ?_, by simp,
      fun k hk => ⟨?_, fun z hz => Nat.le_succ_of_le (hk.clients z (hsub.subset hz)), ?_⟩⟩
    · have hcons' : y.cons.eraseP p = k₁ ++ k₂ := by
        rw [hcons, List.eraseP_append_right _ (by simpa using hk₁), List.eraseP_cons_of_pos hx]
      rw [QmiProxy.cleanupQmiConnection, if_pos hany]
      simp only [Mem.abs, List.eraseP_map, ← hcons']
      rfl
    · exact Nat.le_succ_of_le (Nat.le_trans hsub.length_le hk.cons)
    · exact Nat.le_succ_of_le (Nat.le_trans List.length_eraseP_le hk.msgs)

theorem flatMap_if {α : Type*} (p : α → Prop) [DecidablePred p] (g : α → Out) (l : List α) :
    (l.flatMap fun x => if p x then [g x] else []) = (l.filter (p ·)).map g := by
  induction l with
  | nil => rfl
  | cons x l ih =>
    by_cases h : p x
    · simp [h, ih]
    · simp [h, ih]

theorem Holds.sendHead_eq (hm : Holds m y) (fuel : ℕ) (hf : y.cons.length < fuel) :
    m.sendHead fuel = some { m with out := m.out ++ QmiProxy.sendHead (m.abs y) } := by
  have hhead := (hm.owns.toLists.perm (rings_perm_msgs y)).getNext_head
  cases hmsgs : y.msgs with
  | nil => simp [Mem.sendHead, hhead, hmsgs, QmiProxy.sendHead, Mem.abs]
  | cons b bs =>
    have hlive : m.links.live (.msg b) = true := hm.live_msg (by simp [hmsgs])
    simp only [hmsgs, List.map_cons, List.cons_append, List.head_cons] at hhead
    simp only [Mem.sendHead, hhead, Option.bind_eq_bind, Option.bind_some, reduceCtorEq, if_false,
      Mem.readMsg, hlive, if_true]
    refine (forEach_send (l := y.cons) (f := fun x => Node.con x.1)
      (g := fun x => if (m.conRec x.1).clientFd = (m.msg b).clientFd then
        [.cdcWdm (wire (m.msg b).qmi) (some (m.msg b).tag)] else [])
      hm.owns.toLists (fun x hx o => ?_) hf).trans ?_
    · have hlive : m.links.live (.con x.1) = true := hm.live_con hx
      simp only [Mem.readCon, hlive, if_true, Option.bind_some]
      split <;> simp [Mem.send]
    · rw [flatMap_if]
      simp only [QmiProxy.sendHead, Mem.abs, hmsgs, List.map_cons, List.filter_map, List.map_map]
      rfl

/-- The clients of one connection. -/
theorem Holds.clients (hm : Holds m y) {x : ℕ × List ℕ} (hx : x ∈ y.cons) :
    ∃ rs, Lists m.links ((.clientQnode x.1, x.2.map .client) :: rs) := by
  obtain ⟨k₁, k₂, hcons⟩ := List.append_of_mem hx
  have hperm := rings_perm k₁ k₂ x y.msgs
  rw [← hcons] at hperm
  exact ⟨_, hm.owns.toLists.perm hperm⟩

theorem Holds.forwardMux_eq (hm : Holds m y) {k fuel : ℕ} (hk : y.Within k) (hf : k < fuel)
    (pQMI : Bytes) :
    m.forwardMux fuel pQMI
      = some { m with out := m.out ++ QmiProxy.forwardMux (m.abs y) pQMI } := by
  let g : ℕ × List ℕ → ℕ → List Out := fun x c =>
    if hdrQMIType pQMI = (m.client c).1
        ∧ (hdrClientId pQMI = 0 ∨ hdrClientId pQMI = (m.client c).2) then
      [.client (m.conRec x.1).clientFd (m.conRec x.1).con (wire pQMI)] else []
  refine (forEach_send (l := y.cons) (f := fun x => Node.con x.1) (g := fun x => x.2.flatMap (g x))
    hm.owns.toLists (fun x hx o => ?_) (Nat.lt_of_le_of_lt hk.cons hf)).trans ?_
  · have hlive : m.links.live (.con x.1) = true := hm.live_con hx
    obtain ⟨rs, hl⟩ := hm.clients hx
    simp only [Mem.readCon, hlive, if_true, Option.bind_eq_bind, Option.bind_some]
    rw [forEach_send (m := { m with out := o }) (g := g x) hl (fun c hc o => ?_)
      (Nat.lt_of_le_of_lt (hk.clients x hx) hf)]
    · rfl
    · have hlive : m.links.live (.client c) = true := hm.live_client hx hc
      simp only [Mem.readClient, hlive, if_true, Option.bind_some, g]
      split <;> simp [Mem.send]
  · simp only [g, flatMap_if, QmiProxy.forwardMux, Mem.abs, List.flatMap_map, Mem.absCon,
      List.filter_map, List.map_map]
    rfl

theorem Holds.recvQmiFromClient (hm : Holds m y) {new : ℕ} {pQMI : Bytes} {size clientfd : ℕ}
    {tag : Tag} (he : Env m (.fromClient pQMI size clientfd tag, new)) :
    Simulates m y (m.recvQmiFromClient new pQMI size clientfd tag)
      (QmiProxy.recvQmiFromClient (m.abs y) pQMI size clientfd tag) := by
  have hserver : (m.abs y).serverFd = m.serverFd := rfl
  have hsend : ∀ o, Simulates m y (some (m.send o)) (m.abs y, [o]) := fun o =>
    ⟨m.send o, y, rfl, ⟨hm.owns, hm.fds⟩, rfl, rfl, fun k hk => hk.succ⟩
  unfold Mem.recvQmiFromClient QmiProxy.recvQmiFromClient
  rw [hserver]
  by_cases hfd : m.serverFd ≤ 0
  · rw [if_pos hfd, if_pos hfd]
    exact hsend _
  rw [if_neg hfd, if_neg hfd]
  by_cases hctl : hdrQMIType pQMI = QMUX_TYPE_CTL
  swap
  · rw [if_neg hctl, if_neg hctl]
    exact hsend _
  rw [if_pos hctl, if_pos hctl]
  by_cases hsync : ctlType pQMI = QMICTL_SYNC_REQ
  · rw [if_pos hsync, if_pos hsync]
    exact ⟨m, y, rfl, hm, rfl, by simp, fun k hk => hk.succ⟩
  rw [if_neg hsync, if_neg hsync]
  -- the request is queued, and written too if it is the first
  have ho := hm.owns.perm (rings_perm_msgs y)
  have hnew : m.links.live (.msg new) = false := he.fresh _ (.inr (.inr (.inr rfl)))
  obtain ⟨h₁, h₂, e₁, e₂, ho₂⟩ := ho.newItem hnew
  have hmsgs : y.msgs.map (Function.update m.msg new ⟨clientfd, pQMI.take size, tag⟩)
      = y.msgs.map m.msg :=
    List.map_congr_left fun b hb => Function.update_of_ne (ne_of_live hnew (hm.live_msg hb)) _ _
  have hhead := ho.getNext_head
  refine ⟨{ m with
      links := h₂
      msg := Function.update m.msg new ⟨clientfd, pQMI.take size, tag⟩
      out := m.out ++ if y.msgs = [] then [.cdcWdm (wire pQMI) (some tag)] else [] },
    ⟨y.cons, y.msgs ++ [new]⟩, ?_, ⟨?_, hm.fds⟩, ?_, ?_, fun k hk => ⟨?_, ?_, ?_⟩⟩
  · cases hy : y.msgs with
    | nil => simp [hhead, hy, e₁, e₂, Mem.send]
    | cons b bs => simp [hhead, hy, e₁, e₂]
  · refine Owns.perm ?_ (rings_perm_msgs ⟨y.cons, y.msgs ++ [new]⟩).symm
    simpa using ho₂
  · simp only [Mem.abs, List.map_append, hmsgs, List.map_cons, List.map_nil, Function.update_self]
    rfl
  · simp [Mem.abs, List.isEmpty_iff]
  · exact Nat.le_succ_of_le hk.cons
  · exact fun x hx => Nat.le_succ_of_le (hk.clients x hx)
  · simpa using hk.msgs

theorem dropHead {cons : List (ℕ × List ℕ)} {b : ℕ} {bs : List ℕ}
    (ho : Owns m.links (Layout.mk cons (b :: bs)).rings) :
    ∃ h, m.drop (.msg b) = some { m with links := h } ∧ Owns h (Layout.mk cons bs).rings := by
  have ho₀ : Owns m.links ((.qmiProxyCtlMsg, [] ++ .msg b :: bs.map .msg) ::
      (.qmiProxyConnection, cons.map fun x => .con x.1) :: cons.map Layout.clientRing) :=
    ho.perm (rings_perm_msgs ⟨cons, b :: bs⟩)
  obtain ⟨h₁, h₂, e₁, e₂, ho₂⟩ := ho₀.dropItem
  exact ⟨h₂, by simp [Mem.drop, e₁, e₂], ho₂.perm (rings_perm_msgs ⟨cons, bs⟩).symm⟩

/-- No other connection is on the descriptor of one. -/
theorem Holds.fds_other {k₁ k₂ : List (ℕ × List ℕ)} {x : ℕ × List ℕ} {msgs : List ℕ}
    (hm : Holds m ⟨k₁ ++ x :: k₂, msgs⟩) :
    ∀ z ∈ k₁ ++ k₂, (m.conRec z.1).clientFd ≠ (m.conRec x.1).clientFd := by
  have hfds := hm.fds
  rw [List.map_append, List.map_cons, List.nodup_middle, List.nodup_cons, ← List.map_append] at hfds
  exact fun z hz he => hfds.1 (List.mem_map.2 ⟨z, hz, he⟩)

theorem answerCon_other {qmiMsg : Msg} {fuel new z : ℕ} {pQMI : Bytes}
    (hlive : m.links.live (.con z) = true) (hz : (m.conRec z).clientFd ≠ qmiMsg.clientFd) :
    Mem.answerCon qmiMsg fuel new pQMI (.con z) m = some (m, false) := by
  simp [Mem.answerCon, Mem.readCon, hlive, hz]

/-- The loop of an answer, at the connection that is on the descriptor of the request. -/
theorem answerLoop_spec {k₁ k₂ : List (ℕ × List ℕ)} {a : ℕ} {cs msgs : List ℕ} {qmiMsg : Msg}
    {fuel new : ℕ} (pQMI : Bytes) (hm : Holds m ⟨k₁ ++ (a, cs) :: k₂, msgs⟩)
    (hn : m.links.live (.client new) = false) (hcs : cs.length < fuel)
    (hk : (k₁ ++ (a, cs) :: k₂).length < fuel) (ha : (m.conRec a).clientFd = qmiMsg.clientFd) :
    ∃ h client, ∃ cs' : List ℕ,
      m.forEach .qmiProxyConnection fuel (Mem.answerCon qmiMsg fuel new pQMI)
        = some { m with
            links := h
            client := client
            modemResetFlag := m.modemResetFlag || ctlType pQMI = QMICTL_REVOKE_CLIENT_ID_IND
            out := m.out ++ [.client qmiMsg.clientFd (m.conRec a).con (wire pQMI)] } ∧
      Owns h (Layout.mk (k₁ ++ (a, cs') :: k₂) msgs).rings ∧
      (∀ c, m.links.live (.client c) = true → client c = m.client c) ∧
      (∀ fd con, QmiProxy.settleClients ⟨fd, cs.map m.client, con⟩ pQMI
        = ⟨fd, cs'.map client, con⟩) ∧ cs'.length ≤ cs.length + 1 := by
  obtain ⟨h, client, cs', e, ho', hclient, hset, hlen⟩ := settleClients_spec
    (m := m.send (.client qmiMsg.clientFd (m.conRec a).con (wire pQMI))) new pQMI
    (hm.owns.perm (rings_perm k₁ k₂ (a, cs) msgs)) hn hcs
  have ho₁ : Owns h ((Node.clientQnode a, cs'.map .client) :: restRings k₁ k₂ a msgs) := ho'
  refine ⟨h, client, cs', ?_, ho₁.perm (rings_perm k₁ k₂ (a, cs') msgs).symm, hclient, hset, hlen⟩
  have hother : ∀ z ∈ k₁ ++ k₂, (m.conRec z.1).clientFd ≠ qmiMsg.clientFd := ha ▸ hm.fds_other
  have hl := (hm.owns.toLists.perm (rings_perm k₁ k₂ (a, cs) msgs)).perm (List.Perm.swap _ _ _)
  have hl' := ho₁.toLists.perm (List.Perm.swap _ _ _)
  rw [Mem.forEach, hl.getNext_head, Option.bind_eq_bind, Option.bind_some]
  refine forEach_one hl hl' (fun n hn => ?_) ?_ (fun n hn => ?_) (by simpa using hk)
  · obtain ⟨z, hz, rfl⟩ := List.mem_map.1 hn
    refine answerCon_other (hl.live_head ?_) (hother z (List.mem_append_left _ hz))
    exact .tail _ (List.mem_append_left _ hn)
  · have hlive : m.links.live (.con a) = true := hl.live_head (by simp)
    simp only [Mem.answerCon, Mem.readCon, hlive, if_true, Option.bind_eq_bind, Option.bind_some,
      ha, e]
    by_cases hrev : ctlType pQMI = QMICTL_REVOKE_CLIENT_ID_IND
    · simp [hrev, Mem.send]
    · simp [hrev, Mem.send]
  · obtain ⟨z, hz, rfl⟩ := List.mem_map.1 hn
    refine answerCon_other (hl'.live_head ?_) (hother z (List.mem_append_right _ hz))
    exact .tail _ (List.mem_append_right _ (.tail _ hn))

theorem settle_other {fd : ℕ} (pQMI : Bytes) {l : List Connection}
    (hl : ∀ x ∈ l, x.clientFd ≠ fd) :
    l.map (fun qmiCon => if qmiCon.clientFd = fd then QmiProxy.settleClients qmiCon pQMI
      else qmiCon) = l :=
  (List.map_congr_left fun x hx => if_neg (hl x hx)).trans l.map_id'

theorem filter_other {fd : ℕ} {l : List Connection} (hl : ∀ x ∈ l, x.clientFd ≠ fd) :
    l.filter (·.clientFd = fd) = [] := by
  simpa using hl

theorem answerHead_none {p : Proxy} {qmiMsg : Msg} {rest : List Msg} (pQMI : Bytes)
    (hp : p.ctlMsg = qmiMsg :: rest) (hno : ∀ x ∈ p.connections, x.clientFd ≠ qmiMsg.clientFd) :
    QmiProxy.answerHead p pQMI = ({ p with ctlMsg := rest }, []) := by
  have hany : p.connections.any (·.clientFd = qmiMsg.clientFd) = false := by simpa using hno
  simp [QmiProxy.answerHead, hp, hany, settle_other pQMI hno, filter_other hno]

theorem answerHead_some {p : Proxy} {qmiMsg : Msg} {rest : List Msg} {l₁ l₂ : List Connection}
    {c : Connection} (pQMI : Bytes) (hp : p.ctlMsg = qmiMsg :: rest)
    (hc : p.connections = l₁ ++ c :: l₂) (hfd : c.clientFd = qmiMsg.clientFd)
    (h₁ : ∀ x ∈ l₁, x.clientFd ≠ qmiMsg.clientFd) (h₂ : ∀ x ∈ l₂, x.clientFd ≠ qmiMsg.clientFd) :
    QmiProxy.answerHead p pQMI = ({ p with
        connections := l₁ ++ QmiProxy.settleClients c pQMI :: l₂
        ctlMsg := rest
        modemResetFlag := p.modemResetFlag || ctlType pQMI = QMICTL_REVOKE_CLIENT_ID_IND },
      [.client qmiMsg.clientFd c.con (wire pQMI)]) := by
  simp [QmiProxy.answerHead, hp, hc, hfd, settle_other pQMI h₁, settle_other pQMI h₂,
    filter_other h₁, filter_other h₂]

theorem Holds.answerHead (hm : Holds m y) {k fuel new : ℕ} (hk : y.Within k) (hf : k < fuel)
    (hn : m.links.live (.client new) = false) (pQMI : Bytes) :
    Simulates m y (m.answerHead fuel new pQMI) (QmiProxy.answerHead (m.abs y) pQMI) := by
  obtain ⟨cons, msgs⟩ := y
  have hhead := (hm.owns.toLists.perm (rings_perm_msgs ⟨cons, msgs⟩)).getNext_head
  cases msgs with
  | nil =>
    refine ⟨m, ⟨cons, []⟩, ?_, hm, rfl, by simp [QmiProxy.answerHead, Mem.abs],
      fun k hk => hk.succ⟩
    simp [Mem.answerHead, hhead]
  | cons b bs =>
    have hlive : m.links.live (.msg b) = true := hm.live_msg List.mem_cons_self
    simp only [List.map_cons, List.cons_append, List.head_cons] at hhead
    simp only [Mem.answerHead, hhead, Option.bind_eq_bind, Option.bind_some, reduceCtorEq, if_false,
      Mem.readMsg, hlive, if_true]
    cases hfind : cons.find? fun x => (m.conRec x.1).clientFd = (m.msg b).clientFd with
    | none =>
      -- the connection is gone, and nobody gets the answer
      have hno : ∀ x ∈ cons, (m.conRec x.1).clientFd ≠ (m.msg b).clientFd := fun x hx =>
        of_decide_eq_false (by simpa using List.find?_eq_none.1 hfind x hx)
      have hloop : m.forEach .qmiProxyConnection fuel
          (Mem.answerCon (m.msg b) fuel new pQMI) = some m := by
        refine (forEach_send (l := cons) (f := fun x => Node.con x.1) (g := fun _ => [])
          hm.owns.toLists (fun x hx o => ?_) (Nat.lt_of_le_of_lt hk.cons hf)).trans ?_
        · simpa using answerCon_other (m := { m with out := o }) (hm.live_con hx) (hno x hx)
        · simp [List.flatMap_eq_nil_iff.2]
      obtain ⟨h', e', ho'⟩ := dropHead hm.owns
      rw [answerHead_none (p := m.abs ⟨cons, b :: bs⟩) pQMI rfl
        (List.forall_mem_map.2 hno)]
      refine ⟨{ m with links := h' }, ⟨cons, bs⟩, by simp [hloop, e'], ⟨ho', hm.fds⟩, rfl,
        by simp, fun k hk => ⟨Nat.le_succ_of_le hk.cons, fun x hx =>
          Nat.le_succ_of_le (hk.clients x hx), Nat.le_succ_of_le (Nat.le_of_succ_le hk.msgs)⟩⟩
    | some x =>
      obtain ⟨hx, k₁, k₂, rfl, hk₁⟩ := List.find?_eq_some_iff_append.1 hfind
      obtain ⟨a, cs⟩ := x
      have ha : (m.conRec a).clientFd = (m.msg b).clientFd := of_decide_eq_true hx
      obtain ⟨h, client, cs', e, ho, hclient, hset, hlen⟩ := answerLoop_spec pQMI hm hn
        (Nat.lt_of_le_of_lt (hk.clients (a, cs) (by simp)) hf) (Nat.lt_of_le_of_lt hk.cons hf) ha
      obtain ⟨h', e', ho'⟩ := dropHead (m := { m with
        links := h
        client := client
        modemResetFlag := m.modemResetFlag || ctlType pQMI = QMICTL_REVOKE_CLIENT_ID_IND
        out := m.out ++ [.client (m.msg b).clientFd (m.conRec a).con (wire pQMI)] }) ho
      have hother : ∀ z ∈ k₁ ++ k₂, (m.absCon z).clientFd ≠ (m.msg b).clientFd :=
        ha ▸ hm.fds_other
      rw [answerHead_some (p := m.abs ⟨k₁ ++ (a, cs) :: k₂, b :: bs⟩) pQMI rfl
        (by rw [Mem.abs, List.map_append, List.map_cons]) ha
        (List.forall_mem_map.2 fun z hz => hother z (List.mem_append_left _ hz))
        (List.forall_mem_map.2 fun z hz => hother z (List.mem_append_right _ hz))]
      let m' : Mem := { m with
        links := h'
        client := client
        modemResetFlag := m.modemResetFlag || ctlType pQMI = QMICTL_REVOKE_CLIENT_ID_IND
        out := m.out ++ [.client (m.msg b).clientFd (m.conRec a).con (wire pQMI)] }
      have habs : ∀ z ∈ k₁ ++ (a, cs) :: k₂, m'.absCon z = m.absCon z := fun z hz => by
        simp only [Mem.absCon, m']
        rw [List.map_congr_left fun c hc => hclient c (hm.live_client hz hc)]
      refine ⟨m', ⟨k₁ ++ (a, cs') :: k₂, bs⟩, by simp only [e, e', Option.bind_some, m'],
        ⟨ho', by simpa using hm.fds⟩, ?_, rfl, fun k hk => ⟨?_, fun z hz => ?_, ?_⟩⟩
      · have h₁ : k₁.map m'.absCon = k₁.map m.absCon :=
          List.map_congr_left fun z hz => habs z (List.mem_append_left _ hz)
        have h₂ : k₂.map m'.absCon = k₂.map m.absCon :=
          List.map_congr_left fun z hz => habs z (List.mem_append_right _ (.tail _ hz))
        have hx : m'.absCon (a, cs') = QmiProxy.settleClients (m.absCon (a, cs)) pQMI :=
          (hset _ _).symm
        simp only [Mem.abs, List.map_append, List.map_cons, h₁, h₂, hx]
        rfl
      · simpa using Nat.le_succ_of_le hk.cons
      · rcases List.mem_append.1 hz with hz | hz
        · exact Nat.le_succ_of_le (hk.clients z (List.mem_append_left _ hz))
        · rcases List.mem_cons.1 hz with rfl | hz
          · exact Nat.le_trans hlen (Nat.succ_le_succ (hk.clients (a, cs) (by simp)))
          · exact Nat.le_succ_of_le (hk.clients z (List.mem_append_right _ (.tail _ hz)))
      · exact Nat.le_succ_of_le (Nat.le_of_succ_le hk.msgs)

theorem answerHead_length (p : Proxy) (pQMI : Bytes) :
    (QmiProxy.answerHead p pQMI).1.connections.length = p.connections.length := by
  unfold QmiProxy.answerHead
  cases p.ctlMsg <;> simp

theorem Holds.recvQmiFromDev (hm : Holds m y) {k fuel new : ℕ} (hk : y.Within k) (hf : k < fuel)
    {pQMI : Bytes} (he : Env m (.fromDev pQMI, new)) :
    Simulates m y (m.recvQmiFromDev fuel new pQMI) (QmiProxy.recvQmiFromDev (m.abs y) pQMI) := by
  have hserver : (m.abs y).serverFd = m.serverFd := rfl
  unfold Mem.recvQmiFromDev QmiProxy.recvQmiFromDev
  rw [hserver]
  by_cases hfd : m.serverFd = -1
  · rw [if_pos hfd, if_pos hfd]
    exact ⟨{ m with syncDone := true }, y, rfl, ⟨hm.owns, hm.fds⟩, rfl, by simp,
      fun k hk => hk.succ⟩
  rw [if_neg hfd, if_neg hfd]
  by_cases hctl : hdrQMIType pQMI = QMUX_TYPE_CTL
  swap
  · rw [if_neg hctl, if_neg hctl]
    exact ⟨_, y, hm.forwardMux_eq hk hf pQMI, ⟨hm.owns, hm.fds⟩, rfl, rfl, fun k hk => hk.succ⟩
  rw [if_pos hctl, if_pos hctl]
  by_cases hflags : ctlFlags pQMI = QMICTL_CTL_FLAG_RSP
  · obtain ⟨m₁, y₁, e₁, hm₁, habs₁, hout₁, hw₁⟩ :=
      hm.answerHead hk hf (he.fresh (.client new) (.inr (.inr (.inl rfl)))) pQMI
    have hlen : y₁.cons.length = y.cons.length := by
      have h := congrArg (fun p : Proxy => p.connections.length) habs₁
      rw [answerHead_length] at h
      simpa [Mem.abs] using h
    have e₂ := hm₁.sendHead_eq fuel (by rw [hlen]; exact Nat.lt_of_le_of_lt hk.cons hf)
    refine ⟨{ m₁ with out := m₁.out ++ QmiProxy.sendHead (m₁.abs y₁) }, y₁,
      by simp only [if_pos hflags, e₁, Option.bind_eq_bind, Option.bind_some, e₂],
      ⟨hm₁.owns, hm₁.fds⟩, ?_, by simp [hflags, hout₁, habs₁], hw₁⟩
    simp only [if_pos hflags]
    exact habs₁
  · have e := hm.sendHead_eq fuel (Nat.lt_of_le_of_lt hk.cons hf)
    refine ⟨{ m with out := m.out ++ QmiProxy.sendHead (m.abs y) }, y, by simp [hflags, e],
      ⟨hm.owns, hm.fds⟩, ?_, by simp [hflags], fun k hk => hk.succ⟩
    simp only [if_neg hflags]
    rfl

/-! ## Runs -/

theorem Holds.step (hm : Holds m y) {k : ℕ} (fuel : ℕ) (hk : y.Within k) (hf : k < fuel)
    {i : Event × ℕ} (he : Env m i) :
    Simulates m y (step fuel m i) (handle (m.abs y) i.1) := by
  obtain ⟨e, new⟩ := i
  cases e with
  | accept clientfd con => exact hm.accept con he
  | cleanup clientfd => exact hm.cleanup hk hf clientfd
  | fromClient pQMI size clientfd tag => exact hm.recvQmiFromClient he
  | fromDev pQMI => exact hm.recvQmiFromDev hk hf he

theorem Holds.run {fuel : ℕ} : ∀ {is : List (Event × ℕ)} {m : Mem} {y : Layout} {k : ℕ},
    Holds m y → y.Within k → k + is.length ≤ fuel → Runs.Meets (QmiProxyHeap.step fuel) Env m is →
      ∃ m' y', Runs.exec (QmiProxyHeap.step fuel) m is = some m' ∧ Holds m' y' ∧
        m'.abs y' = (handleAll (m.abs y) (is.map Prod.fst)).1 ∧
        m'.out = m.out ++ (handleAll (m.abs y) (is.map Prod.fst)).2
  | [], m, y, k, hm, _, _, _ => ⟨m, y, rfl, hm, rfl, by simp [handleAll]⟩
  | i :: is, m, y, k, hm, hk, hf, ⟨he, hrest⟩ => by
    rw [List.length_cons] at hf
    obtain ⟨m₁, y₁, e₁, hm₁, habs₁, hout₁, hw₁⟩ := hm.step fuel hk (by omega) he
    obtain ⟨m₂, y₂, e₂, hm₂, habs₂, hout₂⟩ := Holds.run (k := k + 1) hm₁ (hw₁ k hk) (by omega)
      (hrest m₁ e₁)
    refine ⟨m₂, y₂, by rw [Runs.exec, e₁, Option.bind_some, e₂], hm₂, ?_, ?_⟩
    · rw [habs₂, habs₁]
      rfl
    · rw [hout₂, hout₁, habs₁, List.append_assoc]
      rfl

theorem start_holds {m₀ m : Mem} (h : m₀.start = some m) : Holds m ⟨[], []⟩ := by
  have hl : Lists ({ m₀.links with
      live := fun n => n = Node.qmiProxyConnection ∨ n = Node.qmiProxyCtlMsg } : Heap Node) [] :=
    ⟨by simp, by simp, by simp⟩
  obtain ⟨h₁, e₁, hlive₁, hl₁⟩ := hl.init Node.qmiProxyConnection (by simp) (by simp)
  obtain ⟨h₂, e₂, hlive₂, hl₂⟩ := hl₁.init Node.qmiProxyCtlMsg (by simp)
    (by simp [hlive₁])
  simp only [Mem.start, e₁, e₂, Option.bind_eq_bind, Option.bind_some, Option.some.injEq] at h
  subst h
  refine ⟨⟨hl₂.perm (List.Perm.swap _ _ _), fun n hn => ?_⟩, by simp⟩
  simpa [Layout.rings, hlive₂, hlive₁] using hn

/-- A run of the proxy on the heap: it never goes to a record that has been freed, it leaves nothing
behind that is not in a list, and it does what the run on lists does. -/
theorem heap_run {m₀ m : Mem} (h : m₀.start = some m) (fuel : ℕ) {is : List (Event × ℕ)}
    (hf : is.length ≤ fuel) (he : Runs.Meets (step fuel) Env m is) :
    ∃ m' y, Runs.exec (step fuel) m is = some m' ∧ Holds m' y ∧
      m'.abs y = (handleAll (m.abs ⟨[], []⟩) (is.map Prod.fst)).1 ∧
      m'.out = m.out ++ (handleAll (m.abs ⟨[], []⟩) (is.map Prod.fst)).2 :=
  (start_holds h).run ⟨Nat.le_refl 0, fun x hx => (nomatch hx), Nat.le_refl 0⟩ (by simpa using hf)
    he

/-- Before the start. -/
def unused : Mem where
  links := ⟨fun _ => false, fun n => n, fun n => n⟩
  conRec := fun _ => ⟨0, 0⟩
  client := fun _ => (0, 0)
  msg := fun _ => ⟨0, [], ⟨0, 0⟩⟩
  serverFd := 3
  syncDone := true
  modemResetFlag := false
  out := []

/-- A client connects, asks for a client id and gets it. -/
def granted : List (Event × ℕ) :=
  [(.accept 5 0, 1),
    (.fromClient [1, 15, 0, 0, 0, 0, 0, 1, 0x22, 0, 4, 0, 1, 1, 0, 3] 16 5 ⟨0, 0⟩, 2),
    (.fromDev [1, 23, 0, 128, 0, 0, 1, 1, 0x22, 0, 12, 0, 2, 4, 0, 0, 0, 0, 0, 1, 2, 0, 3, 5], 3)]

theorem heap_run_granted : ∃ m m' y, unused.start = some m ∧
    Runs.exec (step 3) m granted = some m' ∧ Holds m' y ∧
    m'.abs y = ⟨3, [⟨5, [(3, 5)], 0⟩], [], true, false⟩ := by
  obtain ⟨m, hm⟩ : ∃ m, unused.start = some m := ⟨_, rfl⟩
  have he : Runs.Meets (step 3) Env m granted := by
    cases hm
    refine ⟨⟨?_, ?_⟩, fun m₁ h₁ => ?_⟩
    · rintro n (rfl | rfl | rfl | rfl) <;> rfl
    · rintro _ _ ⟨⟩ a ha
      cases ha
    cases h₁
    refine ⟨⟨?_, ?_⟩, fun m₂ h₂ => ?_⟩
    · rintro n (rfl | rfl | rfl | rfl) <;> rfl
    · rintro _ _ ⟨⟩
    cases h₂
    refine ⟨⟨?_, ?_⟩, fun m₃ h₃ => trivial⟩
    · rintro n (rfl | rfl | rfl | rfl) <;> rfl
    · rintro _ _ ⟨⟩
  obtain ⟨m', y, hrun, hy, habs, _⟩ := heap_run hm 3 (by decide) he
  refine ⟨m, m', y, hm, hrun, hy, habs.trans ?_⟩
  cases hm
  rfl

end QmiProxyHeap

end BananaWrt
