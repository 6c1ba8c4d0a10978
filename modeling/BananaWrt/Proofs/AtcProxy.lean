import BananaWrt.Lib.Keyed
import BananaWrt.AtcProxy

/-!
# Lines go to the client that asked

While a command is open, `current_client_fd` is the record of its client, and without one it is
not set, as long as the lookup finds the client and no line comes in the two windows in which the
pointer and the command disagree. The walk of `onUnsolicited` through the list keeps its place
because records stand in the order of their ids (`isolated_of_calm`).
-/

namespace BananaWrt

namespace AtChannel

/-- The pending command, if there is one, expects no intermediate lines and no prompt. -/
structure Channel.Plain (ch : Channel) : Prop where
  rawData : ch.rawData = none
  smsPDU : ch.smsPDU = none
  type : ch.response ≠ none → ch.type = .noResult

theorem processLine_of_idle {ch : Channel} (h : ch.response = none) (atcProxy : Bool)
    (line : Line) : ch.processLine atcProxy line = (ch, .unsolicited) := by
  unfold Channel.processLine
  rw [h]

/-- A proxy hands every line of a plain command to the handler. -/
theorem processLine_of_plain {ch : Channel} (hch : ch.Plain) {r : Response}
    (h : ch.response = some r) (line : Line) :
    ∃ r' : Response, ch.processLine true line = ({ ch with response := some r' }, .unsolicited) ∧
      r'.finalResponse = if isFinalResponse line then some line else r.finalResponse := by
  obtain ⟨type, responsePrefix, smsPDU, rawData, response⟩ := ch
  obtain ⟨hraw, hsms, htype⟩ := hch
  cases hraw
  cases hsms
  cases h
  cases htype (Option.some_ne_none r)
  simp only [Channel.processLine, Option.isSome_none, Bool.false_eq_true, false_and, ↓reduceIte]
  by_cases hs : isFinalResponseSuccess line
  · exact ⟨{ r with success := true, finalResponse := some line }, by rw [if_pos hs]; rfl,
      by simp [isFinalResponse, hs]⟩
  · by_cases he : isFinalResponseError line
    · exact ⟨{ r with success := false, finalResponse := some line },
        by rw [if_neg hs, if_pos he]; rfl, by simp [isFinalResponse, he]⟩
    · exact ⟨r, by rw [if_neg hs, if_neg he], by simp [isFinalResponse, hs, he]⟩

theorem plain_clearPendingCommand {ch : Channel} (h : ch.Plain) : ch.clearPendingCommand.Plain :=
  ⟨h.rawData, rfl, fun hr => absurd rfl hr⟩

theorem response_sendCommand (ch : Channel) (type : CommandType) (responsePrefix : Line)
    (smsPDU : Option Line) (wrote : Bool) :
    (ch.sendCommand type responsePrefix smsPDU wrote).response = none ∨
      (ch.sendCommand type responsePrefix smsPDU wrote).response = some .new := by
  unfold Channel.sendCommand
  split_ifs
  · exact .inl rfl
  · exact .inr rfl

theorem plain_sendCommand {ch : Channel} (h : ch.Plain) (wrote : Bool) :
    (ch.sendCommand .noResult [] none wrote).Plain := by
  unfold Channel.sendCommand
  split_ifs
  · exact plain_clearPendingCommand h
  · exact ⟨h.rawData, rfl, fun _ => rfl⟩

end AtChannel

namespace AtcProxy

open AtChannel

/-- The records stand in the order of their ids, below `n`, and no two have one socket. -/
structure Listed (l : List Connection) (n : ℕ) : Prop where
  sorted : l.Pairwise (·.id < ·.id)
  fresh : ∀ c ∈ l, c.id < n
  nonzero : ∀ c ∈ l, c.ClientFd ≠ 0
  distinct : ∀ c ∈ l, ∀ c' ∈ l, 0 ≤ c.ClientFd → c'.ClientFd = c.ClientFd → c' = c

section Listed

variable {l l' : List Connection} {n : ℕ} {c c' : Connection}

theorem Listed.sublist (h : Listed l n) (hl : l'.Sublist l) : Listed l' n where
  sorted := h.sorted.sublist hl
  fresh := fun c hc => h.fresh c (hl.subset hc)
  nonzero := fun c hc => h.nonzero c (hl.subset hc)
  distinct := fun c hc c' hc' => h.distinct c (hl.subset hc) c' (hl.subset hc')

theorem Listed.append (h : Listed l n) {fd : ℤ} (h0 : fd ≠ 0)
    (hfd : 0 ≤ fd → ∀ c ∈ l, c.ClientFd ≠ fd) : Listed (l ++ [⟨n, fd⟩]) (n + 1) := by
  have hcases : ∀ c ∈ l ++ [⟨n, fd⟩], c ∈ l ∨ c = ⟨n, fd⟩ := by
    intro c hc
    simpa using hc
  refine ⟨?_, ?_, ?_, ?_⟩
  · refine List.pairwise_append.2 ⟨h.sorted, List.pairwise_singleton _ _, ?_⟩
    intro c hc c' hc'
    cases List.mem_singleton.1 hc'
    exact h.fresh c hc
  · intro c hc
    rcases hcases c hc with hc | rfl
    · exact Nat.lt_succ_of_lt (h.fresh c hc)
    · exact Nat.lt_succ_self n
  · intro c hc
    rcases hcases c hc with hc | rfl
    · exact h.nonzero c hc
    · exact h0
  · intro c hc c' hc' hpos heq
    rcases hcases c hc with hc | rfl <;> rcases hcases c' hc' with hc' | rfl
    · exact h.distinct c hc c' hc' hpos heq
    · have hfd' : fd = c.ClientFd := heq
      exact absurd hfd'.symm (hfd (by rwa [hfd']) c hc)
    · exact absurd heq (hfd hpos c' hc')
    · rfl

theorem Listed.eq_of_id (h : Listed l n) (hc : c ∈ l) (hc' : c' ∈ l) (hid : c'.id = c.id) :
    c' = c := by
  have hnodup : (l.map (·.id)).Nodup := List.pairwise_map.2 (h.sorted.imp Nat.ne_of_lt)
  exact List.inj_on_of_nodup_map hnodup hc' hc hid

theorem Listed.find_id (h : Listed l n) (hc : c ∈ l) : l.find? (·.id = c.id) = some c :=
  List.find?_of_unique hc (by simp) fun c' hc' hid => h.eq_of_id hc hc' (by simpa using hid)

theorem Listed.find_fd (h : Listed l n) (hc : c ∈ l) (hpos : 0 ≤ c.ClientFd) :
    l.find? (·.ClientFd = c.ClientFd) = some c :=
  List.find?_of_unique hc (by simp) fun c' hc' hfd =>
    h.distinct c hc c' hc' hpos (by simpa using hfd)

end Listed

theorem mem_clients {s : State} {con : ℕ} :
    con ∈ s.clients ↔ ∃ c ∈ s.connections, c.Connected ∧ c.id = con := by
  simp [State.clients, and_assoc]

theorem clients_nodup {s : State} (h : Listed s.connections s.nextId) : s.clients.Nodup :=
  List.pairwise_map.2 ((h.sorted.sublist List.filter_sublist).imp Nat.ne_of_lt)

theorem clients_filter {s : State} (h : Listed s.connections s.nextId) {c : Connection}
    (hc : c ∈ s.connections) (hconnected : c.Connected) :
    s.clients.filter (· = c.id) = [c.id] := by
  have hmap : (s.clients.map fun con => con).Nodup := by
    rw [List.map_id']
    exact clients_nodup h
  exact List.filter_key hmap (mem_clients.2 ⟨c, hc, hconnected, rfl⟩)

/-! ## The invariant -/

/-- What holds whatever the two threads are doing. -/
structure Core (s : State) : Prop where
  listed : Listed s.connections s.nextId
  fault : s.fault = false
  routed : ∀ e ∈ s.log, e.1.Routed e.2
  plain : s.channel.Plain

/-- No command is pending. -/
structure Quiet (ch : Channel) (owner : Option ℕ) : Prop where
  response : ch.response = none
  owner : owner = none

/-- The command of `client` is pending. Its record stays until the final response is there. -/
structure Pending (l : List Connection) (current owner : Option ℕ) (ch : Channel)
    (client : Connection) (r : Response) : Prop where
  response : ch.response = some r
  connected : client.Connected
  kept : r.finalResponse = none → client ∈ l
  current : r.finalResponse = none → current = some client.id
  owner : owner = if r.finalResponse = none then some client.id else none

/-- What holds at each place of the loop while there is a reader. -/
def Phase (s : State) : Prop :=
  match s.loop with
  | .polling | .exited => Quiet s.channel s.owner ∧ s.current = none
  | .received client =>
    Quiet s.channel s.owner ∧ s.current = none ∧ client ∈ s.connections ∧ client.Connected
  | .addressed client =>
    Quiet s.channel s.owner ∧ s.current = some client.id ∧ client ∈ s.connections ∧
      client.Connected
  | .waiting client => ∃ r, Pending s.connections s.current s.owner s.channel client r
  | .returned _ => Quiet s.channel s.owner

/-- A line is on its way to the client whose command is open. -/
structure Answering (s : State) (d : Delivery) (con : ℕ) : Prop where
  loop : ∃ client, s.loop = .waiting client ∧ client.id = con
  answered : s.answered = false
  owner : d.owner = some con
  sent : d.sent = [con]
  clients : d.clients.filter (· = con) = [con]
  next : ∀ ch ∈ d.next, ch.Plain ∧
    ∃ r, ch.response = some r ∧ (r.finalResponse = none ↔ d.final = false)
  final : d.next = none → d.final = false

/-- A line is on its way to every client and has come to the record `con`. -/
structure Walking (s : State) (d : Delivery) (con : ℕ) : Prop where
  owner : d.owner = none
  here : con ∈ s.connections.map (·.id)
  sorted : d.sent.Pairwise (· < ·)
  le : ∀ c ∈ d.sent, c ≤ con
  all : ∀ c ∈ s.connections, c.Connected → c.id ∈ d.clients → c.id ≤ con → c.id ∈ d.sent
  old : ∀ c ∈ d.clients, c < s.nextId
  next : d.next = none ∧ d.final = false ∨
    d.next = some s.channel ∧ s.channel.response = none

structure Inv (s : State) : Prop where
  core : Core s
  phase : s.reader ≠ .closed → Phase s
  single : ∀ d con, s.reader = .single d con → Answering s d con
  walking : ∀ d con, s.reader = .walking d con → Walking s d con

theorem inv_init (type : CommandType) : Inv (.init type) where
  core := ⟨⟨.nil, by simp [State.init], by simp [State.init], by simp [State.init]⟩, rfl,
    by simp [State.init], ⟨rfl, rfl, fun h => absurd rfl h⟩⟩
  phase := fun _ => ⟨⟨rfl, rfl⟩, rfl⟩
  single := by simp [State.init]
  walking := by simp [State.init]

theorem Inv.isolated {s : State} (h : Inv s) : Isolated s where
  fault := h.core.fault
  routed := h.core.routed
  confined := by
    intro d hd
    cases hr : s.reader with
    | reading | closed => simp [hr, Reader.delivery] at hd
    | single d' con =>
      obtain rfl : d' = d := by simpa [hr, Reader.delivery] using hd
      have ha := h.single d' con hr
      refine ⟨by simp [ha.sent], fun client hclient c hc => ?_⟩
      rw [ha.sent, List.mem_singleton] at hc
      exact hc.trans (Option.some.inj (ha.owner.symm.trans hclient))
    | walking d' con =>
      obtain rfl : d' = d := by simpa [hr, Reader.delivery] using hd
      have hw := h.walking d' con hr
      refine ⟨hw.sorted.imp Nat.ne_of_lt, fun client hclient => ?_⟩
      rw [hw.owner] at hclient
      exact absurd hclient (Option.not_mem_none client)

theorem Phase.owner_of_idle {s : State} (h : Phase s) (hidle : s.channel.response = none) :
    s.owner = none := by
  unfold Phase at h
  split at h
  · exact h.1.owner
  · exact h.1.owner
  · exact h.1.owner
  · exact h.1.owner
  · obtain ⟨r, hr⟩ := h
    exact absurd (hr.response.symm.trans hidle) (Option.some_ne_none r)
  · exact h.owner

theorem Core.log {s : State} (h : Core s) {d : Delivery} (hr : d.Routed s.clients) :
    ∀ e ∈ (d, s.clients) :: s.log, e.1.Routed e.2 := by
  intro e he
  rcases List.mem_cons.1 he with rfl | he
  · exact hr
  · exact h.routed e he

/-- The reader is done with a line that went to every client. -/
theorem inv_done {s : State} (hc : Core s) (hp : Phase s) {d : Delivery} (hr : d.Routed s.clients)
    (hnext : d.next = none ∧ d.final = false ∨
      d.next = some s.channel ∧ s.channel.response = none) : Inv (s.done d) := by
  have hchannel : d.next.getD s.channel = s.channel := by
    rcases hnext with ⟨h, -⟩ | ⟨h, -⟩ <;> rw [h] <;> rfl
  have howner : (if d.final then none else s.owner) = s.owner := by
    rcases hnext with ⟨-, h⟩ | ⟨-, h⟩
    · rw [h]
      rfl
    · rw [hp.owner_of_idle h, ite_self]
  have hdone : s.done d = { s with reader := .reading, log := (d, s.clients) :: s.log } := by
    unfold State.done
    rw [hchannel, howner]
  rw [hdone]
  exact ⟨⟨hc.listed, hc.fault, hc.log hr, hc.plain⟩, fun _ => hp, by simp, by simp⟩

/-- `onUnsolicited` goes on through the rest of the list. -/
theorem inv_walk {s : State} (hc : Core s) (hp : Phase s) {d : Delivery} (howner : d.owner = none)
    (hold : ∀ c ∈ d.clients, c < s.nextId) (hsorted : d.sent.Pairwise (· < ·))
    (hnext : d.next = none ∧ d.final = false ∨
      d.next = some s.channel ∧ s.channel.response = none) :
    ∀ {rest : List Connection}, rest.Sublist s.connections →
      (∀ c ∈ d.sent, ∀ c' ∈ rest, c < c'.id) →
      (∀ c ∈ s.connections, c.Connected → c.id ∈ d.clients → c.id ∈ d.sent ∨ c ∈ rest) →
      Inv (s.walk d rest)
  | [], _, _, hall => by
    refine inv_done hc hp ?_ hnext
    unfold Delivery.Routed
    rw [howner]
    refine ⟨hsorted.imp Nat.ne_of_lt, fun con hcon hremaining => ?_⟩
    obtain ⟨c, hmem, hconnected, rfl⟩ := mem_clients.1 hremaining
    exact (hall c hmem hconnected hcon).resolve_right List.not_mem_nil
  | c :: rest, hsub, hlt, hall => by
    have hmem : c ∈ s.connections := hsub.subset List.mem_cons_self
    have hafter := List.pairwise_cons.1 (hc.listed.sorted.sublist hsub)
    unfold State.walk
    split_ifs with hfd
    · refine ⟨⟨hc.listed, hc.fault, hc.routed, hc.plain⟩, fun _ => hp, by simp, ?_⟩
      rintro d' con' ⟨⟩
      refine ⟨howner, List.mem_map.2 ⟨c, hmem, rfl⟩, ?_, ?_, ?_, hold, hnext⟩
      · refine List.pairwise_append.2 ⟨hsorted, List.pairwise_singleton _ _, ?_⟩
        intro x hx y hy
        cases List.mem_singleton.1 hy
        exact hlt x hx c List.mem_cons_self
      · intro x hx
        rcases List.mem_append.1 hx with hx | hx
        · exact Nat.le_of_lt (hlt x hx c List.mem_cons_self)
        · exact Nat.le_of_eq (List.mem_singleton.1 hx)
      · intro c' hc' hconnected hclient hle
        rcases hall c' hc' hconnected hclient with hsent | hrest
        · exact List.mem_append_left _ hsent
        · rcases List.mem_cons.1 hrest with rfl | hrest
          · exact List.mem_append_right _ (List.mem_singleton.2 rfl)
          · exact absurd (hafter.1 c' hrest) (Nat.not_lt.2 hle)
    · -- the record has no socket, so it is no client
      refine inv_walk hc hp howner hold hsorted hnext ((List.sublist_cons_self c rest).trans hsub)
        (fun x hx c' hc' => hlt x hx c' (List.mem_cons_of_mem c hc')) ?_
      intro c' hc' hconnected hclient
      refine (hall c' hc' hconnected hclient).imp_right fun hrest => ?_
      rcases List.mem_cons.1 hrest with rfl | hrest
      · have hzero := hc.listed.nonzero c' hc'
        unfold Connection.Connected at hconnected
        omega
      · exact hrest

theorem Phase.of_settled {s : State} (h : Phase s) (hs : s.settled = true) :
    (Quiet s.channel s.owner ∧ s.current = none) ∨
      ∃ client r, s.loop = .waiting client ∧
        Pending s.connections s.current s.owner s.channel client r ∧ r.finalResponse = none := by
  unfold Phase at h
  unfold State.settled at hs
  cases hloop : s.loop with
  | polling | exited => exact .inl (by simpa only [hloop] using h)
  | received client =>
    rw [hloop] at h
    exact .inl ⟨h.1, h.2.1⟩
  | addressed client | returned client => simp [hloop] at hs
  | waiting client =>
    rw [hloop] at h
    obtain ⟨r, hr⟩ := h
    refine .inr ⟨client, r, rfl, hr, ?_⟩
    simpa [hloop, State.answered, hr.response] using hs

theorem answered_of_response {s : State} {r : Response} (h : s.channel.response = some r) :
    s.answered = r.finalResponse.isSome := by
  simp [State.answered, h]

section OnUnsolicited

variable {s : State} {d : Delivery} {t : Line}

theorem onUnsolicited_unset (hfits : t.length < bufSize) (h : s.current = none) :
    s.onUnsolicited d t = s.walk d s.connections := by
  unfold State.onUnsolicited
  rw [if_neg (Nat.not_lt.2 hfits), h]

theorem onUnsolicited_set (hfits : t.length < bufSize) {c : Connection}
    (h : s.current = some c.id) (hfind : s.find c.id = some c) :
    s.onUnsolicited d t = { s with reader := .single { d with sent := [c.id] } c.id } := by
  unfold State.onUnsolicited
  simp only [if_neg (Nat.not_lt.2 hfits), h, hfind]

/-- `onUnsolicited` is called with a line or a short message. -/
theorem inv_onUnsolicited (hc : Core s) (hp : Phase s) (hsettled : s.settled = true)
    (hfits : t.length < bufSize) (howner : d.owner = s.owner)
    (hclients : d.clients = s.clients) (hsent : d.sent = [])
    (hidle : s.channel.response = none →
      d.next = none ∧ d.final = false ∨ d.next = some s.channel)
    (hopen : ∀ r, s.channel.response = some r → r.finalResponse = none →
      (∀ ch ∈ d.next, ch.Plain ∧
        ∃ r', ch.response = some r' ∧ (r'.finalResponse = none ↔ d.final = false)) ∧
      (d.next = none → d.final = false)) : Inv (s.onUnsolicited d t) := by
  rcases hp.of_settled hsettled with ⟨hquiet, hcurrent⟩ | ⟨client, r, hloop, hr, hfinal⟩
  · rw [onUnsolicited_unset hfits hcurrent]
    have hnext : d.next = none ∧ d.final = false ∨
        d.next = some s.channel ∧ s.channel.response = none :=
      (hidle hquiet.response).imp_right fun h => ⟨h, hquiet.response⟩
    refine inv_walk hc hp (howner.trans hquiet.owner) ?_ (by rw [hsent]; exact .nil) hnext
      (List.Sublist.refl _) (by simp [hsent]) fun c hmem _ _ => .inr hmem
    intro con hcon
    rw [hclients] at hcon
    obtain ⟨c, hmem, -, rfl⟩ := mem_clients.1 hcon
    exact hc.listed.fresh c hmem
  · have hfind : s.find client.id = some client := hc.listed.find_id (hr.kept hfinal)
    obtain ⟨hplain, hnone⟩ := hopen r hr.response hfinal
    rw [onUnsolicited_set hfits (hr.current hfinal) hfind]
    refine ⟨⟨hc.listed, hc.fault, hc.routed, hc.plain⟩, fun _ => hp, ?_, by simp⟩
    rintro d' con' ⟨⟩
    refine ⟨⟨client, hloop, rfl⟩, ?_, ?_, rfl, ?_, hplain, hnone⟩
    · exact (answered_of_response hr.response).trans (by rw [hfinal]; rfl)
    · exact howner.trans (hr.owner.trans (if_pos hfinal))
    · change d.clients.filter (· = client.id) = [client.id]
      rw [hclients]
      exact clients_filter hc.listed (hr.kept hfinal) hr.connected

end OnUnsolicited

theorem inv_line {s : State} (h : Inv s) (hreader : s.reader = .reading)
    (hsettled : s.settled = true) {l : Line} (hfits : (text l none).length < bufSize) :
    Inv (s.line l) := by
  have hp : Phase s := h.phase (by rw [hreader]; exact Reader.noConfusion)
  unfold State.line
  cases hr : s.channel.response with
  | none =>
    rw [processLine_of_idle hr]
    exact inv_onUnsolicited h.core hp hsettled hfits rfl rfl rfl (fun _ => .inr rfl)
      fun r hr' => absurd (hr'.symm.trans hr) (Option.some_ne_none r)
  | some r =>
    obtain ⟨r', hline, hfinal⟩ := processLine_of_plain h.core.plain hr l
    rw [hline]
    refine inv_onUnsolicited h.core hp hsettled hfits rfl rfl rfl
      (fun hidle => absurd (hr.symm.trans hidle) (Option.some_ne_none r)) ?_
    intro r₀ hr₀ hnone
    cases hr.symm.trans hr₀
    refine ⟨?_, fun hn => absurd hn (Option.some_ne_none _)⟩
    rintro ch ⟨⟩
    refine ⟨⟨h.core.plain.rawData, h.core.plain.smsPDU, fun _ => h.core.plain.type ?_⟩, r', rfl, ?_⟩
    · rw [hr]
      exact Option.some_ne_none r
    · rw [hfinal, hnone]
      cases isFinalResponse l <;> simp

theorem inv_sms {s : State} (h : Inv s) (hreader : s.reader = .reading)
    (hsettled : s.settled = true) {l₁ l₂ : Line}
    (hfits : (text l₁ (some l₂)).length < bufSize) : Inv (s.sms l₁ l₂) := by
  have hp : Phase s := h.phase (by rw [hreader]; exact Reader.noConfusion)
  exact inv_onUnsolicited h.core hp hsettled hfits rfl rfl rfl (fun _ => .inl ⟨rfl, rfl⟩)
    fun _ _ _ => ⟨fun ch hch => absurd hch (Option.not_mem_none ch), fun _ => rfl⟩

theorem Inv.pending_of_single {s : State} (h : Inv s) {d : Delivery} {con : ℕ}
    (hreader : s.reader = .single d con) : ∃ client r, s.loop = .waiting client ∧ client.id = con ∧
      Pending s.connections s.current s.owner s.channel client r ∧ r.finalResponse = none := by
  have ha := h.single d con hreader
  have hp : Phase s := h.phase (by rw [hreader]; exact Reader.noConfusion)
  obtain ⟨client, hloop, hid⟩ := ha.loop
  unfold Phase at hp
  rw [hloop] at hp
  obtain ⟨r, hr⟩ := hp
  have hopen : r.finalResponse = none := by
    simpa [answered_of_response hr.response] using ha.answered
  exact ⟨client, r, hloop, hid, hr, hopen⟩

/-- A line has been sent to the client whose command is open; after the final response its record
may be gone. -/
theorem inv_answering {s : State} {d : Delivery} {con : ℕ} (h : Inv s)
    (hreader : s.reader = .single d con) {l : List Connection} (hl : l.Sublist s.connections)
    (hfinal : d.final = false → l = s.connections) :
    Inv ({ s with connections := l }.done d) := by
  have ha := h.single d con hreader
  have hc := h.core
  obtain ⟨client, r, hloop, rfl, hr, hopen⟩ := h.pending_of_single hreader
  have hrouted : d.Routed { s with connections := l }.clients := by
    unfold Delivery.Routed
    rw [ha.owner]
    exact ha.sent.trans ha.clients.symm
  have hlog := Core.log (s := { s with connections := l })
    ⟨hc.listed.sublist hl, hc.fault, hc.routed, hc.plain⟩ hrouted
  have hkept : d.final = false → client ∈ l := fun hf => by
    rw [hfinal hf]
    exact hr.kept hopen
  have howner : s.owner = some client.id := hr.owner.trans (if_pos hopen)
  cases hnext : d.next with
  | none =>
    have hf := ha.final hnext
    refine ⟨⟨hc.listed.sublist hl, hc.fault, hlog, ?_⟩, fun _ => ?_, by simp [State.done],
      by simp [State.done]⟩
    · change (d.next.getD s.channel).Plain
      rw [hnext]
      exact hc.plain
    · unfold Phase
      simp only [State.done, hloop, hnext, hf, Option.getD_none, Bool.false_eq_true, ↓reduceIte]
      exact ⟨r, hr.response, hr.connected, fun _ => hkept hf, hr.current, hr.owner⟩
  | some ch =>
    obtain ⟨hplain, r', hr', hiff⟩ := ha.next ch hnext
    refine ⟨⟨hc.listed.sublist hl, hc.fault, hlog, ?_⟩, fun _ => ?_, by simp [State.done],
      by simp [State.done]⟩
    · change (d.next.getD s.channel).Plain
      rw [hnext]
      exact hplain
    · unfold Phase
      simp only [State.done, hloop, hnext, Option.getD_some, howner]
      refine ⟨r', hr', hr.connected, fun hn => hkept (hiff.1 hn), fun _ => hr.current hopen, ?_⟩
      cases hf : d.final with
      | false => simp [hiff.2 hf]
      | true =>
        have hne : r'.finalResponse ≠ none := fun hn => by simp [hiff.1 hn] at hf
        simp [hne]

/-- A line for every client has been sent to `con`, whose record may be gone. -/
theorem inv_walking {s : State} {d : Delivery} {con : ℕ} {l : List Connection}
    (hc : Core { s with connections := l }) (hp : Phase { s with connections := l })
    (hw : Walking s d con) (hl : l.Sublist s.connections)
    (hrest : (s.connections.filter (con < ·.id)).Sublist l) :
    Inv ({ s with connections := l }.walk d (s.connections.filter (con < ·.id))) := by
  refine inv_walk hc hp hw.owner hw.old hw.sorted hw.next hrest ?_ ?_
  · intro c hsent c' hc'
    have hlt : con < c'.id := by simpa using (List.mem_filter.1 hc').2
    exact Nat.lt_of_le_of_lt (hw.le c hsent) hlt
  · intro c hmem hconnected hclient
    rcases Nat.lt_or_ge con c.id with hlt | hle
    · exact .inr (List.mem_filter.2 ⟨hl.subset hmem, by simpa using hlt⟩)
    · exact .inl (hw.all c (hl.subset hmem) hconnected hclient hle)

theorem Core.remove {s : State} (h : Core s) (con : ℕ) : Core (s.remove con) :=
  ⟨h.listed.sublist List.filter_sublist, h.fault, h.routed, h.plain⟩

theorem mem_remove {s : State} {con : ℕ} {c : Connection} (hc : c ∈ s.connections)
    (hne : c.id ≠ con) : c ∈ (s.remove con).connections :=
  List.mem_filter.2 ⟨hc, by simpa using hne⟩

theorem Phase.remove {s : State} (h : Phase s) {con : ℕ} (hne : s.engaged ≠ some con) :
    Phase (s.remove con) := by
  unfold Phase at h ⊢
  unfold State.engaged at hne
  cases hloop : s.loop with
  | polling | exited | returned client => simpa only [State.remove, hloop] using h
  | received client | addressed client =>
    simp only [hloop] at h hne
    simp only [State.remove, hloop]
    exact ⟨h.1, h.2.1, mem_remove h.2.2.1 fun hid => hne (congrArg some hid), h.2.2.2⟩
  | waiting client =>
    simp only [hloop] at h hne
    simp only [State.remove, hloop]
    obtain ⟨r, hr⟩ := h
    refine ⟨r, hr.response, hr.connected, fun hn => ?_, hr.current, hr.owner⟩
    have hopen : s.answered = false := by
      rw [answered_of_response hr.response, hn]
      rfl
    rw [hopen] at hne
    exact mem_remove (hr.kept hn) fun hid => hne (congrArg some hid)

theorem inv_sent {s s' : State} {ret : ℤ} (h : Inv s) (hok : 0 ≤ ret ∨ s.dispensable = true)
    (hs' : s.sent ret = some s') : Inv s' := by
  unfold State.sent at hs'
  cases hreader : s.reader with
  | reading | closed => simp [hreader] at hs'
  | single d con =>
    simp only [hreader] at hs'
    split_ifs at hs' with hret
    · have hfinal : d.final = true := by
        have hd := hok.resolve_left (Int.not_le.2 hret)
        simpa [State.dispensable, hreader] using hd
      obtain ⟨client, r, -, rfl, hr, hopen⟩ := h.pending_of_single hreader
      have hfind : s.find client.id = some client := h.core.listed.find_id (hr.kept hopen)
      simp only [hfind, Option.some.injEq] at hs'
      subst hs'
      refine inv_answering h hreader List.filter_sublist fun hf => ?_
      simp [hf] at hfinal
    · cases hs'
      exact inv_answering h hreader (List.Sublist.refl _) fun _ => rfl
  | walking d con =>
    have hw := h.walking d con hreader
    have hp : Phase s := h.phase (by rw [hreader]; exact Reader.noConfusion)
    obtain ⟨c, hc, rfl⟩ := List.mem_map.1 hw.here
    have hfind : s.find c.id = some c := h.core.listed.find_id hc
    simp only [hreader, hfind, Option.some.injEq] at hs'
    rw [List.tail_dropWhile_of_sorted h.core.listed.sorted hw.here] at hs'
    subst hs'
    split_ifs with hret
    · have hne : s.engaged ≠ some c.id := by
        have hd := hok.resolve_left (Int.not_le.2 hret)
        simpa [State.dispensable, hreader] using hd
      refine inv_walking (h.core.remove c.id) (hp.remove hne) hw List.filter_sublist
        (List.monotone_filter_right _ fun c' hlt => ?_)
      have hlt' : c.id < c'.id := by simpa using hlt
      simpa using Nat.ne_of_gt hlt'
    · exact inv_walking h.core hp hw (List.Sublist.refl _) List.filter_sublist

theorem Walking.frame {s s' : State} {d : Delivery} {con : ℕ} (h : Walking s d con)
    (hhere : con ∈ s'.connections.map (·.id))
    (hconnections : ∀ c ∈ s'.connections, c ∈ s.connections ∨ s.nextId ≤ c.id)
    (hnextId : s.nextId ≤ s'.nextId) (hchannel : d.next = none ∨ s'.channel = s.channel) :
    Walking s' d con where
  owner := h.owner
  here := hhere
  sorted := h.sorted
  le := h.le
  all := by
    intro c hc hconnected hclient hle
    rcases hconnections c hc with hc | hnew
    · exact h.all c hc hconnected hclient hle
    · exact absurd (h.old c.id hclient) (Nat.not_lt.2 hnew)
  old := fun c hc => Nat.lt_of_lt_of_le (h.old c hc) hnextId
  next := by
    rcases h.next with hn | ⟨hn, hidle⟩
    · exact .inl hn
    · rcases hchannel with hnone | hsame
      · exact absurd (hn.symm.trans hnone) (Option.some_ne_none _)
      · rw [hsame]
        exact .inr ⟨hn, hidle⟩

/-- The loop takes a step that leaves the reader alone, at a place where no line is on its way to
the client of a command. -/
theorem inv_loop {s s' : State} (h : Inv s) (hcore : Core s') (hreader : s'.reader = s.reader)
    (hphase : s.reader ≠ .closed → Phase s → Phase s') (hsingle : ∀ d con, s.reader ≠ .single d con)
    (hhere : ∀ d con, s.reader = .walking d con → con ∈ s'.connections.map (·.id))
    (hconnections : ∀ c ∈ s'.connections, c ∈ s.connections ∨ s.nextId ≤ c.id)
    (hnextId : s.nextId ≤ s'.nextId) (hchannel : s.locked = false ∨ s'.channel = s.channel) :
    Inv s' where
  core := hcore
  phase := fun hr => hphase (hreader ▸ hr) (h.phase (hreader ▸ hr))
  single := fun d con hs => absurd (hreader.symm.trans hs) (hsingle d con)
  walking := by
    intro d con hs
    rw [hreader] at hs
    refine (h.walking d con hs).frame (hhere d con hs) hconnections hnextId ?_
    refine hchannel.imp_left fun hunlocked => ?_
    simpa [State.locked, hs] using hunlocked

theorem Inv.not_single {s : State} (h : Inv s) (hloop : ∀ client, s.loop ≠ .waiting client)
    (d : Delivery) (con : ℕ) : s.reader ≠ .single d con := by
  intro hreader
  obtain ⟨client, hwaiting, -⟩ := (h.single d con hreader).loop
  exact hloop client hwaiting

/-- The loop goes on to another place and may set `current_client_fd`; all else stays as it is. -/
theorem inv_turn {s : State} (h : Inv s) (hloop : ∀ client, s.loop ≠ .waiting client) {loop : Loop}
    {current : Option ℕ} (hphase : Phase s → Phase { s with loop := loop, current := current }) :
    Inv { s with loop := loop, current := current } := by
  have hc := h.core
  exact inv_loop h ⟨hc.listed, hc.fault, hc.routed, hc.plain⟩ rfl (fun _ => hphase)
    (h.not_single hloop) (fun d con hs => (h.walking d con hs).here) (fun c hmem => .inl hmem)
    (Nat.le_refl _) (.inr rfl)

theorem inv_accept {s : State} (h : Inv s) (hloop : s.loop = .polling) {fd : ℤ} (h0 : fd ≠ 0)
    (hfd : 0 ≤ fd → ∀ c ∈ s.connections, c.ClientFd ≠ fd) : Inv (s.acceptAtcConnection fd) := by
  have hc := h.core
  refine inv_loop h ⟨hc.listed.append h0 hfd, hc.fault, hc.routed, hc.plain⟩ rfl ?_
    (h.not_single (by simp [hloop])) ?_ ?_ (Nat.le_succ _) (.inr rfl)
  · intro _ hp
    simpa only [Phase, State.acceptAtcConnection, hloop] using hp
  · intro d con hs
    have hhere := (h.walking d con hs).here
    rw [State.acceptAtcConnection, List.map_append]
    exact List.mem_append_left _ hhere
  · intro c hmem
    rcases List.mem_append.1 hmem with hmem | hmem
    · exact .inl hmem
    · exact .inr (Nat.le_of_eq (by rw [List.mem_singleton.1 hmem]))

/-- `cleanup_atc_connection` removes at most one record, and the client in `current_client_fd` only
with the pointer. -/
theorem cleanup_cases (s : State) (fd : ℤ) : s.cleanupAtcConnection fd = s ∨
    ∃ c ∈ s.connections, c.ClientFd = fd ∧ ∃ current, (s.current = none → current = none) ∧
      s.cleanupAtcConnection fd = { s.remove c.id with current := current } := by
  unfold State.cleanupAtcConnection
  cases hfind : s.connections.find? (·.ClientFd = fd) with
  | none => exact .inl rfl
  | some c =>
    refine .inr ⟨c, List.mem_of_find?_eq_some hfind, by simpa using List.find?_some hfind, _,
      fun hn => ?_, rfl⟩
    rw [hn]
    rfl

theorem inv_hangup {s : State} (h : Inv s) (hloop : s.loop = .polling) {fd : ℤ}
    (hok : ∀ c ∈ s.visited, c.ClientFd ≠ fd) : Inv (s.cleanupAtcConnection fd) := by
  rcases cleanup_cases s fd with heq | ⟨c, hmem, hfd, current, hcurrent, heq⟩
  · rwa [heq]
  · rw [heq]
    have hc := h.core.remove c.id
    refine inv_loop h ⟨hc.listed, hc.fault, hc.routed, hc.plain⟩ rfl ?_
      (h.not_single (by simp [hloop])) ?_ (fun c' hc' => .inl (List.mem_filter.1 hc').1)
      (Nat.le_refl _) (.inr rfl)
    · intro _ hp
      unfold Phase at hp ⊢
      simp only [hloop] at hp
      simp only [State.remove, hloop]
      exact ⟨hp.1, hcurrent hp.2⟩
    · intro d con hs
      obtain ⟨c', hc', rfl⟩ := List.mem_map.1 (h.walking d con hs).here
      refine List.mem_map.2 ⟨c', mem_remove hc' fun hid => ?_, rfl⟩
      -- the record that is removed is not the one the reader has come to
      cases h.core.listed.eq_of_id hmem hc' hid
      refine hok c ?_ hfd
      simpa [State.visited, hs, State.find] using h.core.listed.find_id hmem

theorem cleanupAll_frame : ∀ (l : List Connection) (s : State), ∃ l' current,
    l.foldl (fun s c => s.cleanupAtcConnection c.ClientFd) s
        = { s with connections := l', current := current } ∧
      l'.Sublist s.connections ∧ (s.current = none → current = none)
  | [], s => ⟨s.connections, s.current, rfl, List.Sublist.refl _, id⟩
  | c :: l, s => by
    obtain ⟨l', current, heq, hsub, hcurrent⟩ :=
      cleanupAll_frame l (s.cleanupAtcConnection c.ClientFd)
    rw [List.foldl_cons, heq]
    rcases cleanup_cases s c.ClientFd with hs | ⟨c', -, -, current', hcurrent', hs⟩
    · rw [hs] at hsub hcurrent ⊢
      exact ⟨l', current, rfl, hsub, hcurrent⟩
    · rw [hs] at hsub hcurrent ⊢
      exact ⟨l', current, rfl, hsub.trans List.filter_sublist, fun hn => hcurrent (hcurrent' hn)⟩

theorem inv_quit {s : State} (h : Inv s) (hloop : s.loop = .polling) (hok : s.visited = none) :
    Inv { s.connections.foldl (fun s c => s.cleanupAtcConnection c.ClientFd) s with
      loop := .exited } := by
  obtain ⟨l, current, heq, hsub, hcurrent⟩ := cleanupAll_frame s.connections s
  rw [heq]
  have hc := h.core
  refine inv_loop h ⟨hc.listed.sublist hsub, hc.fault, hc.routed, hc.plain⟩ rfl ?_
    (h.not_single (by simp [hloop])) ?_ (fun c hmem => .inl (hsub.subset hmem)) (Nat.le_refl _)
    (.inr rfl)
  · intro _ hp
    simp only [Phase, hloop] at hp ⊢
    exact ⟨hp.1, hcurrent hp.2⟩
  · intro d con hs
    obtain ⟨c, hmem, rfl⟩ := List.mem_map.1 (h.walking d con hs).here
    have hfind := hc.listed.find_id hmem
    simp only [State.visited, hs] at hok
    exact absurd (hfind.symm.trans hok) (Option.some_ne_none c)

/-- The lookup finds the client when the slot holds its descriptor. -/
theorem inv_lookup {s : State} (h : Inv s) {client : Connection}
    (hloop : s.loop = .received client) :
    Inv { s with
      loop := .addressed client
      current :=
        ((s.connections.find? (·.ClientFd = client.ClientFd)).map (·.id)).or s.current } := by
  refine inv_turn h (by simp [hloop]) fun hp => ?_
  simp only [Phase, hloop] at hp ⊢
  obtain ⟨hquiet, -, hmem, hconnected⟩ := hp
  rw [h.core.listed.find_fd hmem hconnected]
  exact ⟨hquiet, rfl, hmem, hconnected⟩

theorem inv_atSendCommand {s : State} (h : Inv s) {client : Connection}
    (hloop : s.loop = .addressed client) (hunlocked : s.locked = false) (wrote : Bool) :
    Inv (s.atSendCommand client wrote) := by
  have hc := h.core
  have hplain := plain_sendCommand hc.plain (wrote && s.reader ≠ .closed)
  have hsingle := h.not_single (by simp [hloop])
  have hhere := fun d con hs => (h.walking d con hs).here
  unfold State.atSendCommand
  simp only
  split_ifs with hsome
  · refine inv_loop h ⟨hc.listed, hc.fault, hc.routed, hplain⟩ rfl ?_ hsingle hhere
      (fun c hmem => .inl hmem) (Nat.le_refl _) (.inl hunlocked)
    intro _ hp
    simp only [Phase, hloop] at hp ⊢
    obtain ⟨-, hcurrent, hmem, hconnected⟩ := hp
    refine ⟨.new, ?_, hconnected, fun _ => hmem, fun _ => hcurrent, rfl⟩
    refine (response_sendCommand _ _ _ _ _).resolve_left fun hnone => ?_
    rw [hnone] at hsome
    exact Bool.false_ne_true hsome
  · refine inv_loop h ⟨hc.listed, hc.fault, hc.routed, hplain⟩ rfl ?_ hsingle hhere
      (fun c hmem => .inl hmem) (Nat.le_refl _) (.inl hunlocked)
    intro _ hp
    simp only [Phase, hloop] at hp ⊢
    exact ⟨Option.not_isSome_iff_eq_none.1 hsome, hp.1.owner⟩

theorem inv_finish {s : State} (h : Inv s) {client : Connection} (hloop : s.loop = .waiting client)
    (hunlocked : s.locked = false) (hfinal : s.reader = .closed ∨ s.answered = true) :
    Inv { s with loop := .returned client, channel := s.channel.clearPendingCommand } := by
  have hc := h.core
  refine inv_loop h ⟨hc.listed, hc.fault, hc.routed, plain_clearPendingCommand hc.plain⟩ rfl ?_ ?_
    (fun d con hs => (h.walking d con hs).here) (fun c hmem => .inl hmem) (Nat.le_refl _)
    (.inl hunlocked)
  · intro hopen hp
    simp only [Phase, hloop] at hp ⊢
    obtain ⟨r, hr⟩ := hp
    have hsome : r.finalResponse ≠ none := by
      have ha := hfinal.resolve_left hopen
      rw [answered_of_response hr.response] at ha
      exact Option.isSome_iff_ne_none.1 ha
    exact ⟨rfl, hr.owner.trans (if_neg hsome)⟩
  · intro d con hs
    have hanswered := (h.single d con hs).answered
    rcases hfinal with hclosed | ha
    · exact Reader.noConfusion (hs.symm.trans hclosed)
    · exact absurd (hanswered.symm.trans ha) Bool.false_ne_true

theorem inv_clear {s : State} (h : Inv s) {client : Connection}
    (hloop : s.loop = .returned client) : Inv { s with loop := .polling, current := none } := by
  refine inv_turn h (by simp [hloop]) fun hp => ?_
  simp only [Phase, hloop] at hp ⊢
  exact ⟨hp, trivial⟩

theorem inv_receive {s : State} (h : Inv s) (hloop : s.loop = .polling) {fd : ℤ} (hfd : 0 ≤ fd)
    {c : Connection} (hfind : s.connections.find? (·.ClientFd = fd) = some c) :
    Inv { s with loop := .received c } := by
  have hcfd : c.ClientFd = fd := by simpa using List.find?_some hfind
  refine inv_turn h (by simp [hloop]) fun hp => ?_
  simp only [Phase, hloop] at hp ⊢
  refine ⟨hp.1, hp.2, List.mem_of_find?_eq_some hfind, ?_⟩
  unfold Connection.Connected
  rwa [hcfd]

/-! ## Runs -/

theorem inv_step {s s' : State} {i : Input} (h : Inv s) (hok : Calm s i)
    (hs' : step s i = some s') : Inv s' := by
  unfold step at hs'
  rw [if_neg (by rw [h.core.fault]; exact Bool.false_ne_true)] at hs'
  cases i with
  | accept fd =>
    simp only [Option.ite_none_right_eq_some, Option.some.injEq] at hs'
    obtain ⟨⟨hloop, -, hfd⟩, rfl⟩ := hs'
    exact inv_accept h hloop hok hfd
  | hangup fd =>
    simp only [Option.ite_none_right_eq_some, Option.some.injEq] at hs'
    obtain ⟨⟨hloop, -⟩, rfl⟩ := hs'
    exact inv_hangup h hloop hok
  | receive fd =>
    simp only [Option.ite_none_right_eq_some, Option.map_eq_some_iff] at hs'
    obtain ⟨⟨hloop, hfd⟩, c, hfind, rfl⟩ := hs'
    exact inv_receive h hloop hfd hfind
  | lookup slot =>
    simp only at hs'
    split at hs'
    · rename_i client hloop
      cases hs'
      obtain rfl : slot = client.ClientFd := hok client (by simp [hloop, Loop.asking])
      exact inv_lookup h hloop
    · cases hs'
  | write wrote =>
    simp only at hs'
    split at hs'
    · rename_i client hloop
      simp only [Option.ite_none_left_eq_some, Option.some.injEq, Bool.not_eq_true] at hs'
      obtain ⟨hunlocked, rfl⟩ := hs'
      exact inv_atSendCommand h hloop hunlocked wrote
    · cases hs'
  | finish =>
    simp only at hs'
    split at hs'
    · rename_i client hloop
      simp only [Option.ite_none_right_eq_some, Option.some.injEq, Bool.not_eq_true] at hs'
      obtain ⟨⟨hunlocked, hfinal⟩, rfl⟩ := hs'
      exact inv_finish h hloop hunlocked hfinal
    · cases hs'
  | timeout => exact absurd hok id
  | clear =>
    simp only at hs'
    split at hs'
    · rename_i client hloop
      cases hs'
      exact inv_clear h hloop
    · cases hs'
  | quit =>
    simp only [Option.ite_none_right_eq_some, Option.some.injEq] at hs'
    obtain ⟨hloop, rfl⟩ := hs'
    exact inv_quit h hloop hok
  | line l =>
    simp only [Option.ite_none_right_eq_some, Option.some.injEq] at hs'
    obtain ⟨⟨hreader, -⟩, rfl⟩ := hs'
    exact inv_line h hreader hok.1 hok.2
  | sms l₁ l₂ =>
    simp only [Option.ite_none_right_eq_some, Option.some.injEq] at hs'
    obtain ⟨⟨hreader, -⟩, rfl⟩ := hs'
    exact inv_sms h hreader hok.1 hok.2
  | sent ret => exact inv_sent h hok hs'
  | close =>
    simp only [Option.ite_none_right_eq_some, Option.some.injEq] at hs'
    obtain ⟨-, rfl⟩ := hs'
    have hc := h.core
    exact ⟨⟨hc.listed, hc.fault, hc.routed, hc.plain⟩, fun hr => absurd rfl hr, by simp, by simp⟩

/-- In every run whose steps are calm, the lines that come while a command is open are sent to its
client only, the others to every client once, and no record is used after it was removed. -/
theorem isolated_of_calm (type : CommandType) (is : List Input) (s : State)
    (hok : Runs.Meets step Calm (.init type) is) (h : exec (.init type) is = some s) :
    Isolated s :=
  (Runs.exec_inv (fun _ _ _ hI ho hs => inv_step hI ho hs) (inv_init type) hok h).isolated

/-- Two clients are told of a call; one asks for the signal quality, and the other leaves. -/
def twoClients : List Input :=
  [.accept 7, .accept 8, .line "RING".toList, .sent 6, .sent 6, .receive 7, .lookup 7, .write true,
    .line "+CSQ: 20,99".toList, .sent 13, .line "OK".toList, .sent 4, .finish, .clear, .hangup 8,
    .line "RING".toList, .sent 6]

theorem isolated_twoClients : ∃ s, exec (.init .noResult) twoClients = some s ∧
    s.log.map (·.1.sent) = [[0], [0], [0], [0, 1]] ∧ Isolated s :=
  ⟨_, rfl, by decide, isolated_of_calm .noResult twoClients _ (by decide) rfl⟩

/-- The slot after those in use holds 0, so the client is not found and its answer goes to both. -/
def staleSlot : List Input :=
  [.accept 7, .accept 8, .receive 7, .lookup 0, .write true, .line "+CSQ: 20,99".toList, .sent 13,
    .sent 13]

theorem not_isolated_staleSlot : ¬ ∀ (type : CommandType) (is : List Input) (s : State),
    exec (.init type) is = some s → Isolated s := by
  intro h
  have hrouted : [0, 1] = [0] :=
    (h .noResult staleSlot _ rfl).routed _ (List.mem_singleton.2 rfl)
  exact absurd hrouted (by decide)

end AtcProxy

end BananaWrt
