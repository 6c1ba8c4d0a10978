import BananaWrt.Proofs.QmapCommands
import BananaWrt.Proofs.QmapMalformed

/-!
# The clones against the copies

On an aggregate of version 5 the two Fibocom decoders make the same checks, packet for packet, so
they come to the end of the same walk (`exists_ends`). What `qmap_qmi_wwan_rx_fixup` has queued by
then has the payloads of the copies, but it hands it on only if there was no packet that it could
not take (`sameAsCopying_iff`).
-/

namespace BananaWrt

namespace Qmap

namespace Fibocom

open Bytes

/-- A packet with no second header, of at most 1500 bytes without its padding, and for an interface
that is there if it has data. -/
structure Framed.V1 (d : Dev) (q : Framed) : Prop where
  extension : q.extension = none
  pad : q.pad ≤ q.body.length
  short : q.payloadLen 0 ≤ 1500
  known : q.command = false → q.muxId < d.qmapMode ∧ ∃ net, d.mpQmapNetDev q.muxId = some net

/-- A packet that ends the loop: data that are not IP, or that no buffer can be had for. The byte
that is looked at is not in the packet if the packet is empty. -/
def Framed.Stops (d : Dev) (q : Framed) (rest : Bytes) : Prop :=
  q.command = false ∧ sizeofMapHeader < (q.bytes ++ rest).length
    ∧ (protocolOf (u8 (q.body ++ rest) 0) = none ∨ d.alloc (q.bytes ++ rest).length = false)

/-- No packet ends the loop. -/
def Unstopped (d : Dev) (qs : List Framed) : Prop :=
  ∀ xs q ys, qs = xs ++ q :: ys → ¬ Framed.Stops d q (aggregate ys)

/-- A packet ends the loop, and there are only commands before it. -/
def StopsAtOnce (d : Dev) (qs : List Framed) : Prop :=
  ∃ xs q ys, qs = xs ++ q :: ys ∧ Framed.Stops d q (aggregate ys) ∧ ∀ x ∈ xs, x.command = true

/-- Without the Ethernet header. -/
def Delivered.payload (p : Delivered) : Delivered := { p with data := p.data.drop ETH_HLEN }

/-- What is still to be parsed is as it was sent, and what is delivered has the payloads that the
other decoder delivers. -/
structure SameAsCopying (d : Dev) (left : List Delivered) (room skb : Bytes) : Prop where
  unparsed : ∀ rx, Rx.Comes d (Rx.start room skb) rx → rx.skb <:+ skb
  delivered : ∃ out chain, qmapQmiWwanRxFixup d (skb.length + 1) left room skb = some (out, chain)
    ∧ rmnetUsbRxHandler d (skb.length + 1) skb = some (out.map Delivered.payload)

section

variable {d : Dev} {q : Framed} {qs : List Framed} {rest skb : Bytes} {w wc w' wc' : Walk}

theorem unstopped_nil : Unstopped d [] := by
  intro xs q ys h
  simp at h

theorem unstopped_cons :
    Unstopped d (q :: qs) ↔ ¬ Framed.Stops d q (aggregate qs) ∧ Unstopped d qs :=
  List.forall_place_cons

theorem stopsAtOnce_cons :
    StopsAtOnce d (q :: qs)
      ↔ Framed.Stops d q (aggregate qs) ∨ (q.command = true ∧ StopsAtOnce d qs) := by
  constructor
  · rintro ⟨xs, r, ys, hr, hstops, hxs⟩
    rcases List.cons_eq_append_iff.1 hr with ⟨rfl, hr⟩ | ⟨xs, rfl, rfl⟩
    · cases hr
      exact .inl hstops
    · exact .inr ⟨hxs q List.mem_cons_self, xs, r, ys, rfl, hstops,
        fun x hx => hxs x (List.mem_cons_of_mem q hx)⟩
  · rintro (hstops | ⟨hq, xs, r, ys, rfl, hstops, hxs⟩)
    · exact ⟨[], q, qs, rfl, hstops, by simp⟩
    · exact ⟨q :: xs, r, ys, rfl, hstops, List.forall_mem_cons.2 ⟨hq, hxs⟩⟩

theorem Framed.Stops.not_command (h : Framed.Stops d q rest) : ¬ q.command = true := by
  rw [h.1]
  exact Bool.false_ne_true

theorem StopsAtOnce.not_unstopped (h : StopsAtOnce d qs) : ¬ Unstopped d qs := by
  obtain ⟨xs, q, ys, hqs, hstops, -⟩ := h
  exact fun hun => hun xs q ys hqs hstops

/-- Both readers find a header of four bytes and the packet without its padding. -/
structure Reader.Reads (R : Reader) (q : Framed) (skb : Bytes) : Prop where
  hdr : R.hdr skb = sizeofMapHeader
  len : R.len skb = q.payloadLen 0

theorem hdrSize_of_v1 (hv : Framed.V1 d q) : q.hdrSize = sizeofMapHeader := by
  unfold Framed.hdrSize
  rw [hv.extension]
  rfl

theorem reads_fixupReader (hv : Framed.V1 d q) (h : q.At rest skb) :
    fixupReader.Reads q skb := by
  have hpad := hv.pad
  refine ⟨rfl, ?_⟩
  change fixupLen skb = _
  unfold fixupLen Framed.payloadLen
  rw [h.pktLen, h.padLen]
  omega

theorem reads_handlerReader (hversion : d.qmapVersion = 5) (hv : Framed.V1 d q)
    (h : q.At rest skb) : (handlerReader d).Reads q skb := by
  have hpad := hv.pad
  have hsmall := q.small
  refine ⟨h.hdrSize.trans (hdrSize_of_v1 hv), ?_⟩
  change skbLen d skb = _
  unfold skbLen Framed.payloadLen Dev.padding
  rw [h.pktLen, h.padLen, if_neg (by omega), Int.bmod_eq_of_le (by omega) (by omega)]
  omega

section Next

variable {R : Reader} (hv : Framed.V1 d q) (h : q.At rest w.skb) (hR : R.Reads q w.skb)
include hv h hR

theorem fits_of_reads : pktLen w.skb + R.hdr w.skb ≤ w.skb.length := by
  have hfits := h.fits
  rw [h.hdrSize, hdrSize_of_v1 hv] at hfits
  rw [hR.hdr]
  exact hfits

theorem drop_of_reads : w.skb.drop (pktLen w.skb + R.hdr w.skb) = rest := by
  have hdrop := h.drop
  rw [h.hdrSize, hdrSize_of_v1 hv] at hdrop
  rw [hR.hdr]
  exact hdrop

theorem next_command (hq : q.command = true) : w.next R d = some { w with skb := rest } := by
  have hshort := hv.short
  have hverdict : verdict d w.skb (R.hdr w.skb) (R.len w.skb) = .skip := by
    unfold verdict
    rw [hR.len, if_neg (by omega), if_neg (Nat.not_lt.2 (fits_of_reads hv h hR)),
      if_pos (h.cdBit.2 hq)]
  unfold Walk.next
  rw [hverdict, drop_of_reads hv h hR]

/-- The checks of a data packet. -/
theorem verdict_data {net : NetDev} (hq : q.command = false)
    (hnet : d.mpQmapNetDev q.muxId = some net) :
    verdict d w.skb (R.hdr w.skb) (R.len w.skb)
      = (protocolOf (u8 (q.body ++ rest) 0)).elim .error (.parse net) := by
  have hshort := hv.short
  have hmux := (hv.known hq).1
  have hbyte : u8 w.skb (R.hdr w.skb) = u8 (q.body ++ rest) 0 := by
    rw [hR.hdr, ← hdrSize_of_v1 hv, h.u8_body]
  have hcd : ¬ CdBit w.skb := by
    rw [h.cdBit, hq]
    exact Bool.false_ne_true
  unfold verdict
  rw [hbyte, hR.len, if_neg (by omega), if_neg (Nat.not_lt.2 (fits_of_reads hv h hR)), if_neg hcd]
  rcases protocolOf (u8 (q.body ++ rest) 0) with _ | protocol
  · rfl
  · dsimp only
    rw [muxId_of_at h, if_neg (Nat.not_le.2 hmux), hnet]
    rfl

theorem next_stops (hskb : w.skb = q.bytes ++ rest) (hstops : Framed.Stops d q rest) :
    w.next R d = none := by
  obtain ⟨hq, -, hbad⟩ := hstops
  obtain ⟨net, hnet⟩ := (hv.known hq).2
  unfold Walk.next
  rw [verdict_data hv h hR hq hnet]
  rcases hprotocol : protocolOf (u8 (q.body ++ rest) 0) with _ | protocol
  · rfl
  · have halloc := hbad.resolve_left (by rw [hprotocol]; exact Option.some_ne_none _)
    dsimp only [Option.elim]
    rw [hskb, halloc, if_neg Bool.false_ne_true]

theorem next_data {net : NetDev} {protocol : ℕ} (hq : q.command = false)
    (hnet : d.mpQmapNetDev q.muxId = some net)
    (hprotocol : protocolOf (u8 (q.body ++ rest) 0) = some protocol)
    (halloc : d.alloc w.skb.length = true) :
    ∃ w₁, w.next R d = some w₁ ∧ w₁.skb = rest
      ∧ w₁.out = w.out ++ [⟨q.muxId, protocol, R.eth net protocol ++ q.payload 0⟩] := by
  have hle : q.payloadLen 0 ≤ q.body.length := Nat.sub_le _ _
  have hpayload : (w.skb.drop (R.hdr w.skb)).take (R.len w.skb).toNat = q.payload 0 := by
    rw [hR.hdr, hR.len, Int.toNat_natCast, ← hdrSize_of_v1 hv, h.body,
      List.take_append_of_le_length hle]
    rfl
  unfold Walk.next
  rw [verdict_data hv h hR hq hnet, hprotocol]
  dsimp only [Option.elim]
  rw [if_pos halloc, hpayload, muxId_of_at h]
  exact ⟨_, rfl, drop_of_reads hv h hR, rfl⟩

end Next

/-- Two walks are over where the first packet is that ends the loop, or at the end of the
aggregate, and have put the same payloads after what there was. -/
structure Ends (d : Dev) (qs : List Framed) (w wc w' wc' : Walk) : Prop where
  comes : Walk.Comes fixupReader d w w'
  done : w'.Over fixupReader d
  copied : Walk.Comes (handlerReader d) d wc wc'
  doneCopied : wc'.Over (handlerReader d) d
  out : w'.out.map Delivered.payload = wc'.out
  le : w.out.length ≤ w'.out.length
  ended : w'.skb.length ≤ sizeofMapHeader ↔ Unstopped d qs
  atOnce : ¬ Unstopped d qs → (w'.out.length = w.out.length ↔ StopsAtOnce d qs)

theorem ends_of_length_le (hskb : w.skb.length ≤ sizeofMapHeader)
    (hskb' : wc.skb.length ≤ sizeofMapHeader) (hout : w.out.map Delivered.payload = wc.out)
    (hun : Unstopped d qs) : Ends d qs w wc w wc :=
  ⟨.refl, .inl hskb, .refl, .inl hskb', hout, Nat.le_refl _, iff_of_true hskb hun,
    fun h => absurd hun h⟩

theorem ends_of_stops (hnext : w.next fixupReader d = none)
    (hnext' : wc.next (handlerReader d) d = none) (hout : w.out.map Delivered.payload = wc.out)
    (hlong : sizeofMapHeader < w.skb.length) (hstops : Framed.Stops d q (aggregate qs)) :
    Ends d (q :: qs) w wc w wc :=
  ⟨.refl, .inr hnext, .refl, .inr hnext', hout, Nat.le_refl _,
    iff_of_false (Nat.not_le.2 hlong) fun h => (unstopped_cons.1 h).1 hstops,
    fun _ => iff_of_true rfl (stopsAtOnce_cons.2 (.inl hstops))⟩

theorem Ends.command {w₁ wc₁ : Walk} (h : Ends d qs w₁ wc₁ w' wc')
    (hs : Walk.Step fixupReader d w w₁) (hs' : Walk.Step (handlerReader d) d wc wc₁)
    (hq : q.command = true) (hout : w₁.out = w.out) : Ends d (q :: qs) w wc w' wc' := by
  have hgo : ¬ Framed.Stops d q (aggregate qs) := fun hstops => hstops.not_command hq
  have hun : Unstopped d (q :: qs) ↔ Unstopped d qs := unstopped_cons.trans (and_iff_right hgo)
  have hat : StopsAtOnce d (q :: qs) ↔ StopsAtOnce d qs := by
    rw [stopsAtOnce_cons, or_iff_right hgo, and_iff_right hq]
  refine ⟨h.comes.head hs, h.done, h.copied.head hs', h.doneCopied, h.out, ?_, ?_, ?_⟩
  · rw [← hout]
    exact h.le
  · rw [hun]
    exact h.ended
  · rw [hun, hat, ← hout]
    exact h.atOnce

theorem Ends.data {w₁ wc₁ : Walk} {p : Delivered} (h : Ends d qs w₁ wc₁ w' wc')
    (hs : Walk.Step fixupReader d w w₁) (hs' : Walk.Step (handlerReader d) d wc wc₁)
    (hq : q.command = false) (hgo : ¬ Framed.Stops d q (aggregate qs))
    (hout : w₁.out = w.out ++ [p]) : Ends d (q :: qs) w wc w' wc' := by
  have hle := h.le
  rw [hout, List.length_append, List.length_singleton] at hle
  refine ⟨h.comes.head hs, h.done, h.copied.head hs', h.doneCopied, h.out, by omega, ?_,
    fun _ => ?_⟩
  · rw [unstopped_cons, and_iff_right hgo]
    exact h.ended
  · refine iff_of_false (by omega) fun hat => ?_
    rcases stopsAtOnce_cons.1 hat with hstops | ⟨hcommand, -⟩
    · exact hgo hstops
    · rw [hq] at hcommand
      exact Bool.false_ne_true hcommand

/-- From the same place, the two walks come to the same end. -/
theorem exists_ends (hversion : d.qmapVersion = 5) : ∀ (qs : List Framed) (w wc : Walk),
    (∀ q ∈ qs, Framed.V1 d q) → w.skb = aggregate qs → wc.skb = aggregate qs →
    w.out.map Delivered.payload = wc.out → ∃ w' wc', Ends d qs w wc w' wc'
  | [], w, wc, _, hw, hwc, hout =>
    ⟨w, wc, ends_of_length_le (by rw [hw]; exact Nat.zero_le _) (by rw [hwc]; exact Nat.zero_le _)
      hout unstopped_nil⟩
  | q :: qs, w, wc, hqs, hw, hwc, hout => by
    have hv := hqs q List.mem_cons_self
    have hrest : ∀ r ∈ qs, Framed.V1 d r := fun r hr => hqs r (List.mem_cons_of_mem q hr)
    rw [aggregate_cons] at hw hwc
    have hat : q.At (aggregate qs) w.skb := hw ▸ q.at_bytes _
    have hat' : q.At (aggregate qs) wc.skb := hwc ▸ q.at_bytes _
    have hR := reads_fixupReader hv hat
    have hR' := reads_handlerReader hversion hv hat'
    by_cases hlen : (q.bytes ++ aggregate qs).length ≤ sizeofMapHeader
    · have hun : Unstopped d (q :: qs) := by
        refine unstopped_cons.2 ⟨fun hstops => Nat.not_lt.2 hlen hstops.2.1, ?_⟩
        rw [eq_nil_of_length_le hlen]
        exact unstopped_nil
      exact ⟨w, wc, ends_of_length_le (by rw [hw]; exact hlen) (by rw [hwc]; exact hlen) hout hun⟩
    · have hlong : sizeofMapHeader < w.skb.length := by
        rw [hw]
        exact Nat.not_le.1 hlen
      have hlong' : sizeofMapHeader < wc.skb.length := by
        rw [hwc]
        exact Nat.not_le.1 hlen
      by_cases hstops : Framed.Stops d q (aggregate qs)
      · exact ⟨w, wc, ends_of_stops (next_stops hv hat hR hw hstops)
          (next_stops hv hat' hR' hwc hstops) hout hlong hstops⟩
      rcases hq : q.command with _ | _
      · obtain ⟨net, hnet⟩ := (hv.known hq).2
        rcases hprotocol : protocolOf (u8 (q.body ++ aggregate qs) 0) with _ | protocol
        · exact absurd ⟨hq, Nat.not_le.1 hlen, .inl hprotocol⟩ hstops
        have halloc : d.alloc (q.bytes ++ aggregate qs).length = true := by
          by_contra hno
          exact hstops ⟨hq, Nat.not_le.1 hlen, .inr (Bool.not_eq_true _ ▸ hno)⟩
        obtain ⟨w₁, hnext, hskb, hout₁⟩ :=
          next_data hv hat hR hq hnet hprotocol (by rw [hw]; exact halloc)
        obtain ⟨wc₁, hnext', hskb', hout₁'⟩ :=
          next_data hv hat' hR' hq hnet hprotocol (by rw [hwc]; exact halloc)
        obtain ⟨w', wc', hends⟩ := exists_ends hversion qs w₁ wc₁ hrest hskb hskb' (by
          rw [hout₁, hout₁', List.map_append, hout, List.map_singleton]
          simp only [fixupReader, handlerReader, Delivered.payload, List.nil_append]
          rw [← length_ethHeader net protocol, List.drop_left])
        exact ⟨w', wc', hends.data ⟨hlong, hnext⟩ ⟨hlong', hnext'⟩ hq hstops hout₁⟩
      · obtain ⟨w', wc', hends⟩ := exists_ends hversion qs { w with skb := aggregate qs }
          { wc with skb := aggregate qs } hrest rfl rfl hout
        exact ⟨w', wc', hends.command ⟨hlong, next_command hv hat hR hq⟩
          ⟨hlong', next_command hv hat' hR' hq⟩ hq rfl⟩

/-- A walk over an aggregate is always where a packet begins. -/
theorem comes_aggregate (hqs : ∀ q ∈ qs, Framed.V1 d q) (hw : w.skb = aggregate qs)
    (h : Walk.Comes fixupReader d w w') : ∃ ys, ys <:+ qs ∧ w'.skb = aggregate ys := by
  induction h with
  | refl => exact ⟨qs, List.suffix_rfl, hw⟩
  | tail _ hs ih =>
    obtain ⟨ys, hys, hskb⟩ := ih
    rcases ys with _ | ⟨q, ys⟩
    · have hlong := hs.1
      rw [hskb] at hlong
      exact absurd hlong (Nat.not_lt_zero _)
    · have hv := hqs q (hys.subset List.mem_cons_self)
      rw [aggregate_cons] at hskb
      have hat : q.At (aggregate ys) _ := hskb ▸ q.at_bytes _
      refine ⟨ys, (List.suffix_cons q ys).trans hys, ?_⟩
      rw [skb_next hs.2, drop_of_reads hv hat (reads_fixupReader hv hat)]

theorem lengths_aggregate (room : Bytes) (hqs : ∀ q ∈ qs, Framed.V1 d q) :
    (Rx.start room (aggregate qs)).Lengths d := by
  refine lengths_start_iff.2 fun w hw hlong net protocol _ _ => ?_
  obtain ⟨ys, hys, hskb⟩ := comes_aggregate hqs rfl hw
  rcases ys with _ | ⟨q, ys⟩
  · rw [hskb] at hlong
    exact absurd hlong (Nat.not_lt_zero _)
  · have hat : q.At (aggregate ys) w.skb := by
      rw [hskb, aggregate_cons]
      exact q.at_bytes _
    rw [hat.padLen, hat.pktLen]
    exact (hqs q (hys.subset List.mem_cons_self)).pad

/-- No header is written over what is still to be parsed. -/
theorem unparsed_suffix {room : Bytes} {rx : Rx} (hqs : ∀ q ∈ qs, Framed.V1 d q)
    (h : Rx.Comes d (Rx.start room (aggregate qs)) rx) : rx.skb <:+ aggregate qs := by
  have hstart := walk_start room (aggregate qs)
  have hc : (Rx.start room (aggregate qs)).Clear (Rx.start room (aggregate qs)).walk.out := by
    rw [hstart]
    exact clear_start room (aggregate qs)
  have hwalk := (walk_comes hc (lengths_aggregate room hqs) h).1
  rw [hstart] at hwalk
  obtain ⟨ys, ⟨xs, rfl⟩, hskb⟩ := comes_aggregate hqs rfl hwalk
  refine ⟨aggregate xs, ?_⟩
  change aggregate xs ++ rx.walk.skb = _
  rw [hskb]
  exact List.flatMap_append.symm

end

/-- On an aggregate of version 5, the clones are delivered with the payloads of the copies if and
only if nothing was left from earlier and no packet ends the loop, or one does before which there
are only commands. -/
theorem sameAsCopying_iff (d : Dev) (left : List Delivered) (room : Bytes) (qs : List Framed)
    (hversion : d.qmapVersion = 5) (hqs : ∀ q ∈ qs, Framed.V1 d q) :
    SameAsCopying d left room (aggregate qs)
      ↔ (left = [] ∧ Unstopped d qs) ∨ StopsAtOnce d qs := by
  obtain ⟨w', wc', hends⟩ := exists_ends hversion qs ⟨aggregate qs, room.length, []⟩
    ⟨aggregate qs, 0, []⟩ hqs rfl rfl rfl
  obtain ⟨w, hw, hover, hfixup⟩ := fixup_spec left (lengths_aggregate room hqs)
  obtain rfl := walk_unique hends.comes hends.done hw hover
  obtain ⟨wc, out, hwc, hoverc, hhandler, hout⟩ := rmnetUsbRxHandler_spec (d := d)
    ((aggregate qs).length + 1) ⟨aggregate qs, 0, []⟩ (Nat.lt_succ_self _)
  obtain rfl := walk_unique hends.copied hends.doneCopied hwc hoverc
  have hpayload : w'.out.map Delivered.payload = out := hends.out.trans hout
  have hsame : SameAsCopying d left room (aggregate qs)
      ↔ (if w'.skb.length ≤ sizeofMapHeader then left ++ w'.out else []).map Delivered.payload
        = out := by
    constructor
    · rintro ⟨-, out', chain, hfixup', hhandler'⟩
      rw [hfixup] at hfixup'
      rw [hhandler] at hhandler'
      rw [Option.some.inj hhandler']
      split_ifs at hfixup' ⊢ with hend
      · rw [(Prod.mk.inj (Option.some.inj hfixup')).1]
      · rw [(Prod.mk.inj (Option.some.inj hfixup')).1]
    · intro h
      refine ⟨fun rx hrx => unparsed_suffix hqs hrx, _,
        if w'.skb.length ≤ sizeofMapHeader then [] else left ++ w'.out, ?_,
        hhandler.trans (congrArg some h.symm)⟩
      rw [hfixup]
      split_ifs
      · rfl
      · rfl
  rw [hsame, ← hpayload]
  by_cases hend : w'.skb.length ≤ sizeofMapHeader
  · have hun := hends.ended.1 hend
    rw [if_pos hend, or_iff_left fun h => h.not_unstopped hun, and_iff_left hun, List.map_append,
      List.append_left_eq_self, List.map_eq_nil_iff]
  · have hun := fun h => hend (hends.ended.2 h)
    rw [if_neg hend, or_iff_right fun h => hun h.2, ← hends.atOnce hun, List.map_nil, eq_comm,
      List.map_eq_nil_iff, ← List.length_eq_zero_iff]
    rfl

/-- A packet that is not IP. -/
def notIp : Framed := { ipPacket with body := [0x00], small := by decide }

/-- An IPv6 packet of two bytes and two of padding. -/
def ip6Packet : Framed := ⟨false, none, 2, 0x81, [0x60, 0, 0, 0], by decide, by decide⟩

/-- Two data packets with a command between them. -/
theorem sameAsCopying_threePackets :
    SameAsCopying oneNet [] [] (aggregate [ipPacket, commandOf 0x81, ip6Packet]) := by
  refine (sameAsCopying_iff oneNet [] [] [ipPacket, commandOf 0x81, ip6Packet] rfl ?_).2
    (.inl ⟨rfl, ?_⟩)
  · intro q hq
    simp only [List.mem_cons, List.not_mem_nil, or_false] at hq
    rcases hq with rfl | rfl | rfl
    · exact ⟨rfl, by decide, by decide, fun _ => ⟨by decide, anyNet, by decide⟩⟩
    · exact ⟨rfl, by decide, by decide, fun h => Bool.noConfusion h⟩
    · exact ⟨rfl, by decide, by decide, fun _ => ⟨by decide, anyNet, by decide⟩⟩
  · refine unstopped_cons.2 ⟨?_, unstopped_cons.2 ⟨fun h => h.not_command rfl,
      unstopped_cons.2 ⟨?_, unstopped_nil⟩⟩⟩
    · rintro ⟨-, -, hbad | hbad⟩
      · exact absurd hbad (by decide)
      · exact absurd hbad Bool.noConfusion
    · rintro ⟨-, -, hbad | hbad⟩
      · exact absurd hbad (by decide)
      · exact absurd hbad Bool.noConfusion

/-- An IP packet and one that is not: the first is copied and delivered, but its clone is not. -/
theorem ipPacket_notIp :
    (∀ q ∈ [ipPacket, notIp], Framed.V1 oneNet q)
    ∧ ¬ SameAsCopying oneNet [] [] (aggregate [ipPacket, notIp]) := by
  constructor
  · intro q hq
    simp only [List.mem_cons, List.not_mem_nil, or_false] at hq
    rcases hq with rfl | rfl
    · exact ⟨rfl, by decide, by decide, fun _ => ⟨by decide, anyNet, by decide⟩⟩
    · exact ⟨rfl, by decide, by decide, fun _ => ⟨by decide, anyNet, by decide⟩⟩
  · rintro ⟨-, out, chain, hfixup, hhandler⟩
    have hnone : (qmapQmiWwanRxFixup oneNet 11 [] [] (aggregate [ipPacket, notIp])).map Prod.fst
        = some [] := by decide
    have hone : rmnetUsbRxHandler oneNet 11 (aggregate [ipPacket, notIp])
        = some [⟨0, ETH_P_IP, [0x45]⟩] := by decide
    have hlen : (aggregate [ipPacket, notIp]).length + 1 = 11 := by decide
    rw [hlen] at hfixup hhandler
    rw [hfixup] at hnone
    rw [hone] at hhandler
    obtain rfl : out = [] := Option.some.inj hnone
    cases hhandler

end Fibocom

end Qmap

end BananaWrt
