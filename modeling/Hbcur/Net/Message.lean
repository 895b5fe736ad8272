import Hbcur.Foundation.Framing
import Hbcur.Serialize.Integers

/-!
# Messages from the network

`CNetMessage` of `net.h` and `CNode::ReceiveMsgBytes` of `net.cpp`, where a stream of bytes
becomes messages.  The chunks in which the bytes arrive do not matter.  The times of messages
are left out.
-/

namespace Hbcur
namespace Net

open Foundation Serialize

def MAX_PROTOCOL_MESSAGE_LENGTH : Nat := 8 * 1024 * 1024

/-!
# Headers
-/

structure CMessageHeader where
  pchMessageStart : List UInt8
  pchCommand : List UInt8
  nMessageSize : Nat
  nChecksum : Nat
  deriving DecidableEq, Repr

namespace CMessageHeader

/-- The header before one is read, with the magic bytes of the network. -/
def initial (messageStart : List UInt8) : CMessageHeader where
  pchMessageStart := messageStart
  pchCommand := List.replicate 12 0
  nMessageSize := 0xffffffff
  nChecksum := 0

def write (hdr : CMessageHeader) : List UInt8 :=
  hdr.pchMessageStart ++ (hdr.pchCommand ++ (writeLE 4 hdr.nMessageSize ++ writeLE 4 hdr.nChecksum))

def read (bytes : List UInt8) : Option (CMessageHeader × List UInt8) :=
  match readExactly 4 bytes with
  | none => none
  | some (pchMessageStart, bytes) =>
      match readExactly 12 bytes with
      | none => none
      | some (pchCommand, bytes) =>
          match readLE 4 bytes with
          | none => none
          | some (nMessageSize, bytes) =>
              match readLE 4 bytes with
              | none => none
              | some (nChecksum, bytes) =>
                  some ({ pchMessageStart, pchCommand, nMessageSize, nChecksum }, bytes)

theorem readExactly_append {count : Nat} {word : List UInt8} (h : word.length = count)
    (rest : List UInt8) : readExactly count (word ++ rest) = some (word, rest) := by
  subst h
  exact reads_readExactly word rest

theorem readLE_append {width : Nat} {word : List UInt8} (h : word.length = width)
    (rest : List UInt8) : readLE width (word ++ rest) = some (valueLE word, rest) := by
  unfold readLE
  rw [readExactly_append h]

/-- A header can be read from 24 bytes, and it stands for them. -/
theorem read_of_length {bytes : List UInt8} (h : bytes.length = 24) :
    exists hdr, read bytes = some (hdr, []) ∧ hdr.write = bytes := by
  -- the four fields, one after another
  have hfields : exists a b c d : List UInt8, bytes = a ++ (b ++ (c ++ d)) ∧ a.length = 4 ∧
      b.length = 12 ∧ c.length = 4 ∧ d.length = 4 := by
    refine ⟨bytes.take 4, (bytes.drop 4).take 12, (bytes.drop 16).take 4, bytes.drop 20,
      ?_, ?_, ?_, ?_, ?_⟩
    · have hlast := List.take_append_drop 4 (bytes.drop 16)
      have hmid := List.take_append_drop 12 (bytes.drop 4)
      rw [List.drop_drop] at hlast hmid
      rw [hlast, hmid, List.take_append_drop]
    all_goals simp [h]
  rcases hfields with ⟨a, b, c, d, rfl, ha, hb, hc, hd⟩
  have hsize := writeLE_valueLE c
  have hchecksum := writeLE_valueLE d
  rw [hc] at hsize
  rw [hd] at hchecksum
  refine ⟨⟨a, b, valueLE c, valueLE d⟩, ?_, ?_⟩
  · have hend := readLE_append hd []
    rw [List.append_nil] at hend
    unfold read
    simp only [readExactly_append ha, readExactly_append hb, readLE_append hc, hend]
  · unfold write
    rw [hsize, hchecksum]

end CMessageHeader

/-!
# Messages
-/

/-- Copy bytes into a buffer. -/
def memcpy (buf : List UInt8) (pos : Nat) (bytes : List UInt8) : List UInt8 :=
  buf.take pos ++ (bytes ++ buf.drop (pos + bytes.length))

def resize (buf : List UInt8) (size : Nat) : List UInt8 :=
  buf.take size ++ List.replicate (size - buf.length) 0

structure CNetMessage where
  inData : Bool := false
  hdrbuf : List UInt8 := List.replicate 24 0
  hdr : CMessageHeader
  nHdrPos : Nat := 0
  vRecv : List UInt8 := []
  nDataPos : Nat := 0
  deriving DecidableEq, Repr

namespace CNetMessage

/-- The constructor, for the next message. -/
def new (messageStart : List UInt8) : CNetMessage where
  hdr := CMessageHeader.initial messageStart

def complete (msg : CNetMessage) : Bool :=
  if !msg.inData then false else msg.hdr.nMessageSize == msg.nDataPos

/-- The number of bytes handled and the message with them, or nothing for an error. -/
def readHeader (msg : CNetMessage) (pch : List UInt8) : Option (Nat × CNetMessage) :=
  let nCopy := min (24 - msg.nHdrPos) pch.length
  let msg :=
    { msg with
      hdrbuf := memcpy msg.hdrbuf msg.nHdrPos (pch.take nCopy)
      nHdrPos := msg.nHdrPos + nCopy }
  if msg.nHdrPos < 24 then some (nCopy, msg)
  else
    match CMessageHeader.read msg.hdrbuf with
    | none => none
    | some (hdr, hdrbuf) =>
        if MAX_SIZE < hdr.nMessageSize then none
        else some (nCopy, { msg with hdrbuf, hdr, inData := true })

def readData (msg : CNetMessage) (pch : List UInt8) : Nat × CNetMessage :=
  let nCopy := min (msg.hdr.nMessageSize - msg.nDataPos) pch.length
  -- up to 256 KiB are allocated ahead
  let vRecv :=
    if msg.vRecv.length < msg.nDataPos + nCopy then
      resize msg.vRecv (min msg.hdr.nMessageSize (msg.nDataPos + nCopy + 256 * 1024))
    else msg.vRecv
  (nCopy,
    { msg with
      vRecv := memcpy vRecv msg.nDataPos (pch.take nCopy)
      nDataPos := msg.nDataPos + nCopy })

end CNetMessage

/-- The last item of a list if it is not complete, or else a fresh one, and those before it. -/
def openLast {item : Type} (complete : item -> Bool) (fresh : item) (l : List item) :
    List item × item :=
  match l.getLast? with
  | none => ([], fresh)
  | some last => if complete last then (l, fresh) else (l.dropLast, last)

/-- A round of the loop in `ReceiveMsgBytes`. -/
def receiveRound (messageStart : List UInt8) (vRecvMsg : List CNetMessage) (pch : List UInt8) :
    Option (Nat × List CNetMessage) :=
  let (done, msg) :=
    openLast CNetMessage.complete (CNetMessage.new messageStart) vRecvMsg
  match (if !msg.inData then msg.readHeader pch else some (msg.readData pch)) with
  | none => none
  | some (handled, msg) =>
      if msg.inData && decide (MAX_PROTOCOL_MESSAGE_LENGTH < msg.hdr.nMessageSize) then none
      else some (handled, done ++ [msg])

def receiveMsgBytes (messageStart : List UInt8) (vRecvMsg : List CNetMessage)
    (pch : List UInt8) : Option (Receipt (List CNetMessage)) :=
  receiveChunk (receiveRound messageStart) vRecvMsg pch

/-!
# Chunks of a stream

The messages which `ReceiveMsgBytes` makes of a stream of bytes are those of a machine which
takes the bytes one by one.  The buffers ahead of the data differ, the messages do not.
-/

/-!
# Byte by byte
-/

/-- What there is of a message. -/
inductive Frame where
  | header (bytes : List UInt8)
  | data (hdr : CMessageHeader) (payload : List UInt8)

namespace Frame

def complete : Frame -> Bool
  | header _ => false
  | data hdr payload => hdr.nMessageSize == payload.length

def next : Frame -> UInt8 -> Option Frame
  | header bytes, b =>
      if (bytes ++ [b]).length < 24 then some (header (bytes ++ [b]))
      else
        match CMessageHeader.read (bytes ++ [b]) with
        | none => none
        | some (hdr, _) =>
            if MAX_PROTOCOL_MESSAGE_LENGTH < hdr.nMessageSize then none else some (data hdr [])
  | data hdr payload, b => some (data hdr (payload ++ [b]))

/-- The bytes of the stream which a frame stands for. -/
def wire : Frame -> List UInt8
  | header bytes => bytes
  | data hdr payload => hdr.write ++ payload

end Frame

def frameStep (frames : List Frame) (b : UInt8) : Option (List Frame) :=
  let (done, frame) := openLast Frame.complete (Frame.header []) frames
  match frame.next b with
  | none => none
  | some frame' => some (done ++ [frame'])

/-!
# The message which is open
-/

section OpenLast

variable {item item' : Type} {complete : item -> Bool} {fresh : item}

theorem openLast_append {x : item} (h : complete x = false) (l : List item) :
    openLast complete fresh (l ++ [x]) = (l, x) := by
  unfold openLast
  rw [List.getLast?_concat]
  simp only
  rw [h, List.dropLast_concat]
  rfl

theorem openLast_map {complete' : item' -> Bool} (f : item -> item') {l : List item}
    (h : forall x, x ∈ l -> complete' (f x) = complete x) :
    openLast complete' (f fresh) (l.map f) =
      ((openLast complete fresh l).1.map f, f (openLast complete fresh l).2) := by
  unfold openLast
  rw [List.getLast?_map]
  cases hlast : l.getLast? with
  | none => rfl
  | some x =>
      simp only [Option.map_some]
      rw [h x (List.mem_of_getLast? hlast)]
      cases complete x with
      | true => rfl
      | false => simp only [Bool.false_eq_true, if_false, List.map_dropLast]

/-- The open item is not complete, and the items before it were there already. -/
theorem openLast_spec (hfresh : complete fresh = false) (l : List item) :
    complete (openLast complete fresh l).2 = false ∧
      ((openLast complete fresh l).2 = fresh ∨ (openLast complete fresh l).2 ∈ l) ∧
      forall x, x ∈ (openLast complete fresh l).1 -> x ∈ l := by
  unfold openLast
  cases hlast : l.getLast? with
  | none =>
      refine ⟨hfresh, Or.inl rfl, ?_⟩
      intro x hmem
      cases hmem
  | some last =>
      simp only
      cases hcomplete : complete last with
      | true => exact ⟨hfresh, Or.inl rfl, fun x hmem => hmem⟩
      | false =>
          exact ⟨hcomplete, Or.inr (List.mem_of_getLast? hlast),
            fun x hmem => List.dropLast_subset l hmem⟩

end OpenLast

theorem frameStep_append {frame : Frame} (h : frame.complete = false) (done : List Frame)
    (b : UInt8) : frameStep (done ++ [frame]) b =
      match frame.next b with
      | none => none
      | some frame' => some (done ++ [frame']) := by
  unfold frameStep
  rw [openLast_append h]

/-- The machine may as well open a frame before it takes the next byte. -/
theorem feed_opened (frames : List Frame) {word : List UInt8} (h : word ≠ []) :
    feed frameStep frames word =
      feed frameStep ((openLast Frame.complete (Frame.header []) frames).1 ++
        [(openLast Frame.complete (Frame.header []) frames).2]) word := by
  cases word with
  | nil => exact absurd rfl h
  | cons b rest =>
      have hopen := (openLast_spec (rfl : Frame.complete (Frame.header []) = false) frames).1
      rw [feed, feed, frameStep_append hopen]
      rfl

theorem feed_header (done : List Frame) (q : List UInt8) :
    forall p : List UInt8, p.length + q.length < 24 ->
      feed frameStep (done ++ [Frame.header p]) q = some (done ++ [Frame.header (p ++ q)]) := by
  induction q with
  | nil =>
      intro p _
      rw [List.append_nil]
      rfl
  | cons b rest ih =>
      intro p hlen
      rw [List.length_cons] at hlen
      have hnext : (Frame.header p).next b = some (Frame.header (p ++ [b])) := by
        apply if_pos
        rw [List.length_append, List.length_singleton]
        omega
      have hstep : frameStep (done ++ [Frame.header p]) b =
          some (done ++ [Frame.header (p ++ [b])]) := by
        rw [frameStep_append rfl, hnext]
      rw [feed_cons_of_some hstep, ih (p ++ [b]), List.append_assoc, List.singleton_append]
      rw [List.length_append, List.length_singleton]
      omega

/-- The last byte of a header decides about the message. -/
theorem feed_header_full (done : List Frame) {p q : List UInt8} (hq : q ≠ [])
    (hlen : p.length + q.length = 24) :
    feed frameStep (done ++ [Frame.header p]) q =
      match CMessageHeader.read (p ++ q) with
      | none => none
      | some (hdr, _) =>
          if MAX_PROTOCOL_MESSAGE_LENGTH < hdr.nMessageSize then none
          else some (done ++ [Frame.data hdr []]) := by
  rcases List.eq_nil_or_concat q with rfl | ⟨front, b, rfl⟩
  · exact absurd rfl hq
  · rw [List.concat_eq_append] at hlen ⊢
    rw [List.length_append, List.length_singleton] at hlen
    have hfull : ¬ (p ++ front ++ [b]).length < 24 := by
      rw [List.length_append, List.length_append, List.length_singleton]
      omega
    rw [feed_append, feed_header done front p (by omega), Option.bind_some, feed,
      frameStep_append rfl, Frame.next, if_neg hfull, ← List.append_assoc]
    cases CMessageHeader.read (p ++ front ++ [b]) with
    | none => rfl
    | some found =>
        rcases found with ⟨hdr, left⟩
        simp only
        split_ifs <;> rfl

theorem feed_data (done : List Frame) (hdr : CMessageHeader) (q : List UInt8) :
    forall p : List UInt8, p.length + q.length ≤ hdr.nMessageSize ->
      feed frameStep (done ++ [Frame.data hdr p]) q = some (done ++ [Frame.data hdr (p ++ q)]) := by
  induction q with
  | nil =>
      intro p _
      rw [List.append_nil]
      rfl
  | cons b rest ih =>
      intro p hlen
      rw [List.length_cons] at hlen
      have hopen : (Frame.data hdr p).complete = false := by
        apply beq_eq_false_iff_ne.mpr
        omega
      have hstep : frameStep (done ++ [Frame.data hdr p]) b =
          some (done ++ [Frame.data hdr (p ++ [b])]) := by
        rw [frameStep_append hopen]
        rfl
      rw [feed_cons_of_some hstep, ih (p ++ [b]), List.append_assoc, List.singleton_append]
      rw [List.length_append, List.length_singleton]
      omega

/-!
# Buffers
-/

theorem take_memcpy {buf bytes : List UInt8} {pos : Nat} (h : pos ≤ buf.length) :
    (memcpy buf pos bytes).take (pos + bytes.length) = buf.take pos ++ bytes := by
  have hpos : (buf.take pos).length = pos := by rw [List.length_take, Nat.min_eq_left h]
  unfold memcpy
  rw [← List.append_assoc]
  apply List.take_left'
  rw [List.length_append, hpos]

theorem length_memcpy {buf bytes : List UInt8} {pos : Nat} (h : pos + bytes.length ≤ buf.length) :
    (memcpy buf pos bytes).length = buf.length := by
  unfold memcpy
  rw [List.length_append, List.length_append, List.length_take, List.length_drop]
  omega

theorem length_resize (buf : List UInt8) (size : Nat) (h : buf.length ≤ size) :
    (resize buf size).length = size := by
  unfold resize
  rw [List.length_append, List.length_take, List.length_replicate]
  omega

theorem take_resize {buf : List UInt8} {pos size : Nat} (h : pos ≤ buf.length)
    (hsize : buf.length ≤ size) : (resize buf size).take pos = buf.take pos := by
  unfold resize
  rw [List.take_of_length_le hsize, List.take_append_of_le_length h]

/-!
# What holds of a message
-/

/-- A message whose header is incomplete, or one whose data fit into their buffer. -/
inductive Receiving (messageStart : List UInt8) : CNetMessage -> Prop where
  | header {hdrbuf : List UInt8} {nHdrPos : Nat} (hbuf : hdrbuf.length = 24) (hpos : nHdrPos < 24) :
      Receiving messageStart
        { inData := false, hdrbuf, hdr := CMessageHeader.initial messageStart, nHdrPos,
          vRecv := [], nDataPos := 0 }
  | data {hdr : CMessageHeader} {vRecv : List UInt8} {nDataPos : Nat}
      (hsize : hdr.nMessageSize ≤ MAX_PROTOCOL_MESSAGE_LENGTH) (hdata : nDataPos ≤ vRecv.length)
      (hrecv : vRecv.length ≤ hdr.nMessageSize) :
      Receiving messageStart { inData := true, hdrbuf := [], hdr, nHdrPos := 24, vRecv, nDataPos }

def CNetMessage.view (msg : CNetMessage) : Frame :=
  if msg.inData then Frame.data msg.hdr (msg.vRecv.take msg.nDataPos)
  else Frame.header (msg.hdrbuf.take msg.nHdrPos)

section Rounds

variable {messageStart : List UInt8}

theorem Receiving.complete_view {msg : CNetMessage} (h : Receiving messageStart msg) :
    msg.view.complete = msg.complete := by
  cases h with
  | header hbuf hpos => rfl
  | data hsize hdata hrecv =>
      unfold CNetMessage.view CNetMessage.complete Frame.complete
      simp [List.length_take, Nat.min_eq_left hdata]

theorem receiving_new : Receiving messageStart (CNetMessage.new messageStart) :=
  Receiving.header (List.length_replicate ..) (by decide)

/-- What reading a header does, in terms of the bytes which have come. -/
theorem readHeader_spec {hdrbuf pch : List UInt8} {nHdrPos : Nat} (hbuf : hdrbuf.length = 24)
    (hpos : nHdrPos < 24) (hpch : pch ≠ []) (done : List Frame) :
    match CNetMessage.readHeader
      { inData := false, hdrbuf, hdr := CMessageHeader.initial messageStart, nHdrPos,
        vRecv := [], nDataPos := 0 } pch with
    | none => feed frameStep (done ++ [Frame.header (hdrbuf.take nHdrPos)]) pch = none
    | some (handled, msg) => 0 < handled ∧
        (if msg.inData && decide (MAX_PROTOCOL_MESSAGE_LENGTH < msg.hdr.nMessageSize) then
          feed frameStep (done ++ [Frame.header (hdrbuf.take nHdrPos)]) pch = none
        else Receiving messageStart msg ∧
          feed frameStep (done ++ [Frame.header (hdrbuf.take nHdrPos)]) (pch.take handled) =
            some (done ++ [msg.view])) := by
  have hlen : 0 < pch.length := List.length_pos_iff.mpr hpch
  unfold CNetMessage.readHeader
  simp only
  generalize hcopy : min (24 - nHdrPos) pch.length = nCopy
  have htaken : (pch.take nCopy).length = nCopy := by
    rw [List.length_take]
    omega
  have hstart : (hdrbuf.take nHdrPos).length = nHdrPos := by
    rw [List.length_take]
    omega
  have hfront : (memcpy hdrbuf nHdrPos (pch.take nCopy)).take (nHdrPos + nCopy) =
      hdrbuf.take nHdrPos ++ pch.take nCopy := by
    rw [← take_memcpy (by omega), htaken]
  have hlength : (memcpy hdrbuf nHdrPos (pch.take nCopy)).length = 24 := by
    rw [length_memcpy (by omega), hbuf]
  have hpos' : 0 < nCopy := by omega
  rcases Nat.lt_or_ge (nHdrPos + nCopy) 24 with hmore | hfull
  · rw [if_pos hmore]
    refine ⟨hpos', ?_⟩
    rw [if_neg (by simp), feed_header done _ _ (by omega), ← hfront]
    exact ⟨Receiving.header hlength hmore, rfl⟩
  · have heq : nHdrPos + nCopy = 24 := by omega
    rw [heq] at hfront ⊢
    rw [if_neg (Nat.lt_irrefl 24)]
    -- the header is there, and it is what the machine reads as well
    have hne : pch.take nCopy ≠ [] := by
      rw [← List.length_pos_iff, htaken]
      exact hpos'
    rcases CMessageHeader.read_of_length hlength with ⟨hdr, hread, _⟩
    have hfeed := feed_header_full done hne (by rw [hstart, htaken, heq])
    rw [← hfront, List.take_of_length_le (Nat.le_of_eq hlength), hread] at hfeed
    rw [hread]
    simp only at hfeed ⊢
    rcases Nat.lt_or_ge MAX_PROTOCOL_MESSAGE_LENGTH hdr.nMessageSize with hover | hsize
    · rw [if_pos hover] at hfeed
      split_ifs with hmax
      · exact feed_eq_none_of_take hfeed
      · exact ⟨hpos', by rw [if_pos (by simpa using hover)]; exact feed_eq_none_of_take hfeed⟩
    · have hmax : ¬ MAX_SIZE < hdr.nMessageSize := by
        have hle : MAX_PROTOCOL_MESSAGE_LENGTH ≤ MAX_SIZE := by decide
        omega
      rw [if_neg (Nat.not_lt.mpr hsize)] at hfeed
      rw [if_neg hmax]
      refine ⟨hpos', ?_⟩
      rw [if_neg (by simpa using hsize)]
      exact ⟨Receiving.data hsize (Nat.le_refl 0) (Nat.zero_le _), hfeed⟩

/-- The buffer before the bytes are copied has room for them, and keeps those it has. -/
theorem readData_buffer {vRecv : List UInt8} {nDataPos nCopy size : Nat}
    (hdata : nDataPos ≤ vRecv.length) (hrecv : vRecv.length ≤ size)
    (hcopy : nDataPos + nCopy ≤ size) {buf : List UInt8}
    (hbuf : buf = if vRecv.length < nDataPos + nCopy then
      resize vRecv (min size (nDataPos + nCopy + 256 * 1024)) else vRecv) :
    nDataPos + nCopy ≤ buf.length ∧ buf.length ≤ size ∧
      buf.take nDataPos = vRecv.take nDataPos := by
  subst hbuf
  split_ifs with hgrow
  · have hlen := length_resize vRecv (min size (nDataPos + nCopy + 256 * 1024)) (by omega)
    rw [take_resize hdata (by omega), hlen]
    exact ⟨by omega, by omega, rfl⟩
  · exact ⟨by omega, hrecv, rfl⟩

theorem readData_spec {hdr : CMessageHeader} {vRecv pch : List UInt8} {nDataPos : Nat}
    (hsize : hdr.nMessageSize ≤ MAX_PROTOCOL_MESSAGE_LENGTH) (hdata : nDataPos ≤ vRecv.length)
    (hrecv : vRecv.length ≤ hdr.nMessageSize) (hopen : nDataPos ≠ hdr.nMessageSize)
    (hpch : pch ≠ []) (done : List Frame) {handled : Nat} {msg : CNetMessage}
    (h : CNetMessage.readData
      { inData := true, hdrbuf := [], hdr, nHdrPos := 24, vRecv, nDataPos } pch = (handled, msg)) :
    0 < handled ∧ Receiving messageStart msg ∧ msg.hdr = hdr ∧
      feed frameStep (done ++ [Frame.data hdr (vRecv.take nDataPos)]) (pch.take handled) =
        some (done ++ [msg.view]) := by
  have hlen : 0 < pch.length := List.length_pos_iff.mpr hpch
  unfold CNetMessage.readData at h
  simp only at h
  generalize hcopy : min (hdr.nMessageSize - nDataPos) pch.length = nCopy at h
  generalize hbuf : (if vRecv.length < nDataPos + nCopy then
    resize vRecv (min hdr.nMessageSize (nDataPos + nCopy + 256 * 1024)) else vRecv) = buf at h
  rcases readData_buffer hdata hrecv (by omega) hbuf.symm with ⟨hroom, hmost, hkeep⟩
  rw [Prod.mk.injEq] at h
  rcases h with ⟨rfl, rfl⟩
  have htaken : (pch.take nCopy).length = nCopy := by
    rw [List.length_take]
    omega
  have hfront : (memcpy buf nDataPos (pch.take nCopy)).take (nDataPos + nCopy) =
      vRecv.take nDataPos ++ pch.take nCopy := by
    rw [← hkeep, ← take_memcpy (by omega), htaken]
  have hlength : (memcpy buf nDataPos (pch.take nCopy)).length = buf.length :=
    length_memcpy (by omega)
  have hpayload : (vRecv.take nDataPos).length + (pch.take nCopy).length ≤ hdr.nMessageSize := by
    rw [List.length_take, htaken]
    omega
  refine ⟨by omega, Receiving.data hsize (by omega) (by omega), rfl, ?_⟩
  rw [feed_data done hdr _ _ hpayload, ← hfront]
  rfl

def AllReceiving (messageStart : List UInt8) (vRecvMsg : List CNetMessage) : Prop :=
  forall msg, msg ∈ vRecvMsg -> Receiving messageStart msg

/-- What a round does once the open message has been found. -/
theorem openMessage_spec {msg : CNetMessage} (h : Receiving messageStart msg)
    (hopen : msg.complete = false) {pch : List UInt8} (hpch : pch ≠ []) (done : List Frame) :
    match (if !msg.inData then msg.readHeader pch else some (msg.readData pch)) with
    | none => feed frameStep (done ++ [msg.view]) pch = none
    | some (handled, msg') => 0 < handled ∧
        (if msg'.inData && decide (MAX_PROTOCOL_MESSAGE_LENGTH < msg'.hdr.nMessageSize) then
          feed frameStep (done ++ [msg.view]) pch = none
        else Receiving messageStart msg' ∧
          feed frameStep (done ++ [msg.view]) (pch.take handled) =
            some (done ++ [msg'.view])) := by
  cases h with
  | header hbuf hpos => exact readHeader_spec hbuf hpos hpch done
  | @data hdr vRecv nDataPos hsize hdata hrecv =>
      have hne : nDataPos ≠ hdr.nMessageSize := fun heq =>
        beq_eq_false_iff_ne.mp hopen heq.symm
      cases hread : CNetMessage.readData
        { inData := true, hdrbuf := [], hdr, nHdrPos := 24, vRecv, nDataPos } pch with
      | mk handled msg' =>
          rcases readData_spec hsize hdata hrecv hne hpch done hread with
            ⟨hpos, hmsg, hhdr, hfeed⟩
          rw [if_neg (by simp)]
          refine ⟨hpos, ?_⟩
          rw [if_neg (by rw [hhdr]; simp [hsize])]
          exact ⟨hmsg, hfeed⟩

theorem receiveRound_spec {vRecvMsg : List CNetMessage}
    (hinv : AllReceiving messageStart vRecvMsg) {pch : List UInt8} (hpch : pch ≠ []) :
    match receiveRound messageStart vRecvMsg pch with
    | none => feed frameStep (vRecvMsg.map CNetMessage.view) pch = none
    | some (handled, vRecvMsg') => 0 < handled ∧ AllReceiving messageStart vRecvMsg' ∧
        feed frameStep (vRecvMsg.map CNetMessage.view) (pch.take handled) =
          some (vRecvMsg'.map CNetMessage.view) := by
  have hmap : openLast Frame.complete (CNetMessage.new messageStart).view
      (vRecvMsg.map CNetMessage.view) = _ :=
    openLast_map CNetMessage.view fun msg hmem => (hinv msg hmem).complete_view
  have hopened : CNetMessage.complete
      (openLast CNetMessage.complete (CNetMessage.new messageStart) vRecvMsg).2 = false ∧ _ :=
    openLast_spec rfl vRecvMsg
  unfold receiveRound
  cases hcase : openLast CNetMessage.complete (CNetMessage.new messageStart) vRecvMsg with
  | mk done msg =>
      rw [hcase] at hmap hopened
      rcases hopened with ⟨hopen, hmem, hdone⟩
      have hmsg : Receiving messageStart msg := by
        rcases hmem with heq | hmem
        · change msg = _ at heq
          rw [heq]
          exact receiving_new
        · exact hinv msg hmem
      have hfeed : forall word : List UInt8, word ≠ [] ->
          feed frameStep (vRecvMsg.map CNetMessage.view) word =
            feed frameStep (done.map CNetMessage.view ++ [msg.view]) word := by
        intro word hword
        have hstart : (CNetMessage.new messageStart).view = Frame.header [] := rfl
        rw [hstart] at hmap
        rw [feed_opened _ hword, hmap]
      have hspec := openMessage_spec hmsg hopen hpch (done.map CNetMessage.view)
      simp only
      cases hread : (if !msg.inData then msg.readHeader pch else some (msg.readData pch)) with
      | none =>
          rw [hread] at hspec
          rw [hfeed pch hpch]
          exact hspec
      | some result =>
          rcases result with ⟨handled, msg'⟩
          rw [hread] at hspec
          rcases hspec with ⟨hpos, hspec⟩
          simp only
          split_ifs with hover
          · rw [if_pos hover] at hspec
            rw [hfeed pch hpch]
            exact hspec
          · rw [if_neg hover] at hspec
            have htake : pch.take handled ≠ [] := by
              rw [← List.length_pos_iff, List.length_take]
              have hlen := List.length_pos_iff.mpr hpch
              omega
            refine ⟨hpos, ?_, ?_⟩
            · intro other hother
              rcases List.mem_append.mp hother with hold | hlast
              · exact hinv other (hdone other hold)
              · rw [List.mem_singleton.mp hlast]
                exact hspec.1
            · rw [hfeed _ htake, hspec.2, List.map_append]
              rfl

theorem receiveRound_simulates :
    RoundSimulates frameStep (AllReceiving messageStart) (List.map CNetMessage.view)
      (receiveRound messageStart) := by
  constructor
  · intro vRecvMsg pch hinv hpch hround
    have hspec := receiveRound_spec hinv hpch
    rw [hround] at hspec
    exact hspec
  · intro vRecvMsg pch handled vRecvMsg' hinv hpch hround
    have hspec := receiveRound_spec hinv hpch
    rw [hround] at hspec
    exact hspec

/-!
# The stream
-/

/-- The header of a frame is not complete, as long as it has not become a message. -/
def Frame.Open : Frame -> Prop
  | Frame.header bytes => bytes.length < 24
  | Frame.data _ _ => True

theorem wire_next {frame frame' : Frame} {b : UInt8} (hopen : frame.Open)
    (h : frame.next b = some frame') : frame'.Open ∧ frame'.wire = frame.wire ++ [b] := by
  cases frame with
  | header bytes =>
      change bytes.length < 24 at hopen
      simp only [Frame.next] at h
      split_ifs at h with hshort
      · cases h
        exact ⟨hshort, rfl⟩
      · have hlength : (bytes ++ [b]).length = 24 := by
          rw [List.length_append, List.length_singleton] at hshort ⊢
          omega
        rcases CMessageHeader.read_of_length hlength with ⟨hdr, hread, hwrite⟩
        rw [hread] at h
        simp only at h
        split_ifs at h
        cases h
        refine ⟨trivial, ?_⟩
        change hdr.write ++ [] = bytes ++ [b]
        rw [List.append_nil, hwrite]
  | data hdr payload =>
      cases h
      exact ⟨trivial, (List.append_assoc _ _ _).symm⟩

theorem wire_openLast (frames : List Frame) :
    (openLast Frame.complete (Frame.header []) frames).1.flatMap Frame.wire ++
        (openLast Frame.complete (Frame.header []) frames).2.wire =
      frames.flatMap Frame.wire := by
  unfold openLast
  cases hlast : frames.getLast? with
  | none =>
      rw [List.getLast?_eq_none_iff.mp hlast]
      rfl
  | some last =>
      simp only
      cases last.complete with
      | true => exact List.append_nil _
      | false =>
          rcases List.getLast?_eq_some_iff.mp hlast with ⟨front, rfl⟩
          simp

theorem wire_feed (word : List UInt8) :
    forall frames frames', (forall frame, frame ∈ frames -> frame.Open) ->
      feed frameStep frames word = some frames' ->
      frames'.flatMap Frame.wire = frames.flatMap Frame.wire ++ word := by
  induction word with
  | nil =>
      intro frames frames' _ h
      cases h
      exact (List.append_nil _).symm
  | cons b rest ih =>
      intro frames frames' hopen h
      have hspec := openLast_spec (rfl : Frame.complete (Frame.header []) = false) frames
      have hwire := wire_openLast frames
      cases hstep : frameStep frames b with
      | none =>
          rw [feed, hstep] at h
          cases h
      | some frames1 =>
          rw [feed_cons_of_some hstep] at h
          unfold frameStep at hstep
          cases hcase : openLast Frame.complete (Frame.header []) frames with
          | mk done frame =>
              rw [hcase] at hspec hwire hstep
              simp only at hspec hwire hstep
              have hframe : frame.Open := by
                rcases hspec.2.1 with rfl | hmem
                · exact (by decide : 0 < 24)
                · exact hopen frame hmem
              cases hnext : frame.next b with
              | none =>
                  rw [hnext] at hstep
                  cases hstep
              | some frame1 =>
                  rw [hnext, Option.some.injEq] at hstep
                  subst hstep
                  rcases wire_next hframe hnext with ⟨hopen1, hwire1⟩
                  have hall : forall other, other ∈ done ++ [frame1] -> other.Open := by
                    intro other hmem
                    rcases List.mem_append.mp hmem with hold | hlast
                    · exact hopen other (hspec.2.2 other hold)
                    · rw [List.mem_singleton.mp hlast]
                      exact hopen1
                  rw [ih _ _ hall h, List.flatMap_append, List.flatMap_singleton, hwire1,
                    ← List.append_assoc, hwire, List.append_assoc, List.singleton_append]

/-- Two messages which differ in nothing but the space allocated ahead of their data. -/
structure SameMessage (msg msg' : CNetMessage) : Prop where
  inData : msg.inData = msg'.inData
  nHdrPos : msg.nHdrPos = msg'.nHdrPos
  hdrbuf : msg.hdrbuf.take msg.nHdrPos = msg'.hdrbuf.take msg'.nHdrPos
  hdr : msg.hdr = msg'.hdr
  nDataPos : msg.nDataPos = msg'.nDataPos
  vRecv : msg.vRecv.take msg.nDataPos = msg'.vRecv.take msg'.nDataPos
  whole : msg.complete = true ->
    msg.vRecv = msg'.vRecv ∧ msg.vRecv.length = msg.hdr.nMessageSize

theorem Receiving.whole {msg : CNetMessage} (h : Receiving messageStart msg)
    (hcomplete : msg.complete = true) :
    msg.nDataPos = msg.vRecv.length ∧ msg.vRecv.length = msg.hdr.nMessageSize := by
  cases h with
  | header hbuf hpos => cases hcomplete
  | data hsize hdata hrecv =>
      have heq := beq_iff_eq.mp hcomplete
      simp only at heq ⊢
      omega

theorem sameMessage_of_view {msg msg' : CNetMessage} (h : Receiving messageStart msg)
    (h' : Receiving messageStart msg') (hview : msg.view = msg'.view) : SameMessage msg msg' := by
  have hwhole := h.whole
  have hwhole' := h'.whole
  have hcomplete : msg.complete = msg'.complete := by
    rw [← h.complete_view, ← h'.complete_view, hview]
  cases h with
  | @header hdrbuf nHdrPos hbuf hpos =>
      cases h' with
      | @header hdrbuf' nHdrPos' hbuf' hpos' =>
          have hbytes : hdrbuf.take nHdrPos = hdrbuf'.take nHdrPos' := Frame.header.inj hview
          have hlen := congrArg List.length hbytes
          rw [List.length_take, List.length_take] at hlen
          have heq : nHdrPos = nHdrPos' := by omega
          exact ⟨rfl, heq, hbytes, rfl, rfl, rfl, fun h => nomatch h⟩
      | data hsize hdata hrecv => cases hview
  | @data hdr vRecv nDataPos hsize hdata hrecv =>
      cases h' with
      | header hbuf hpos => cases hview
      | @data hdr' vRecv' nDataPos' hsize' hdata' hrecv' =>
          have hparts : hdr = hdr' ∧ vRecv.take nDataPos = vRecv'.take nDataPos' :=
            Frame.data.inj hview
          have hlen := congrArg List.length hparts.2
          rw [List.length_take, List.length_take] at hlen
          have heq : nDataPos = nDataPos' := by omega
          refine ⟨rfl, rfl, rfl, hparts.1, heq, hparts.2, ?_⟩
          intro hdone
          have hfull := hwhole hdone
          have hfull' := hwhole' (hcomplete ▸ hdone)
          simp only at hfull hfull'
          have hsame := hparts.2
          rw [hfull.1, hfull'.1, List.take_length, List.take_length] at hsame
          exact ⟨hsame, hfull.2⟩

/-- The messages which come of the chunks of a stream, or that one of them is refused. -/
inductive SameReceipt (stream : List UInt8) :
    Option (Receipt (List CNetMessage)) -> Option (Receipt (List CNetMessage)) -> Prop where
  | refused : SameReceipt stream (some Receipt.refused) (some Receipt.refused)
  | received {vRecvMsg vRecvMsg' : List CNetMessage}
      (same : List.Forall₂ SameMessage vRecvMsg vRecvMsg')
      (wire : (vRecvMsg.flatMap fun msg => msg.view.wire) = stream) :
      SameReceipt stream (some (Receipt.received vRecvMsg)) (some (Receipt.received vRecvMsg'))

theorem forall₂_sameMessage :
    forall vRecvMsg vRecvMsg' : List CNetMessage, AllReceiving messageStart vRecvMsg ->
      AllReceiving messageStart vRecvMsg' ->
      vRecvMsg.map CNetMessage.view = vRecvMsg'.map CNetMessage.view ->
      List.Forall₂ SameMessage vRecvMsg vRecvMsg' := by
  intro vRecvMsg
  induction vRecvMsg with
  | nil =>
      intro vRecvMsg' _ _ hview
      rw [List.map_nil, eq_comm, List.map_eq_nil_iff] at hview
      subst hview
      exact List.Forall₂.nil
  | cons msg rest ih =>
      intro vRecvMsg' hall hall' hview
      cases vRecvMsg' with
      | nil => cases hview
      | cons msg' rest' =>
          rw [List.map_cons, List.map_cons, List.cons.injEq] at hview
          apply List.Forall₂.cons
          · exact sameMessage_of_view (hall msg List.mem_cons_self)
              (hall' msg' List.mem_cons_self) hview.1
          · exact ih rest' (fun other hmem => hall other (List.mem_cons_of_mem msg hmem))
              (fun other hmem => hall' other (List.mem_cons_of_mem msg' hmem)) hview.2

/--
However a stream is cut into chunks, either both times a chunk is refused, or the messages are
the same, and they stand for the bytes of the stream.
-/
theorem receiveMsgBytes_splitting (messageStart : List UInt8) (chunks chunks' : List (List UInt8))
    (h : chunks.flatten = chunks'.flatten) :
    SameReceipt chunks.flatten (receiveChunks (receiveMsgBytes messageStart) [] chunks)
      (receiveChunks (receiveMsgBytes messageStart) [] chunks') := by
  have hnone : AllReceiving messageStart [] := by
    intro msg hmem
    cases hmem
  have hsim : RoundSimulates frameStep (AllReceiving messageStart) _ _ := receiveRound_simulates
  have hmatch := receiveChunks_matches hsim chunks [] hnone
  have hmatch' := receiveChunks_matches hsim chunks' [] hnone
  rw [← h] at hmatch'
  change Receipt.Matches _ _ (receiveChunks (receiveMsgBytes messageStart) [] chunks) _ at hmatch
  change Receipt.Matches _ _ (receiveChunks (receiveMsgBytes messageStart) [] chunks') _ at hmatch'
  cases hfeed : feed frameStep (List.map CNetMessage.view []) chunks.flatten with
  | none =>
      rw [hfeed] at hmatch hmatch'
      rw [eq_refused_of_matches hmatch, eq_refused_of_matches hmatch']
      exact SameReceipt.refused
  | some frames =>
      rw [hfeed] at hmatch hmatch'
      rcases exists_received_of_matches hmatch with ⟨vRecvMsg, heq, hall, hview⟩
      rcases exists_received_of_matches hmatch' with ⟨vRecvMsg', heq', hall', hview'⟩
      rw [heq, heq']
      apply SameReceipt.received
      · exact forall₂_sameMessage vRecvMsg vRecvMsg' hall hall' (hview.trans hview'.symm)
      · have hwire := wire_feed chunks.flatten [] frames (fun _ hmem => nomatch hmem) hfeed
        rw [← hview, List.flatMap_map] at hwire
        exact hwire

end Rounds

/-- A message with a payload of two bytes, and the start of another one. -/
def exampleStream : List UInt8 :=
  (CMessageHeader.write
    { CMessageHeader.initial [1, 2, 3, 4] with nMessageSize := 2 } ++ [5, 6]) ++ [1, 2]

theorem receiveMsgBytes_splitting_example :
    SameReceipt [exampleStream].flatten
      (receiveChunks (receiveMsgBytes [1, 2, 3, 4]) [] [exampleStream])
      (receiveChunks (receiveMsgBytes [1, 2, 3, 4]) []
        [exampleStream.take 7, (exampleStream.drop 7).take 18, exampleStream.drop 25]) :=
  receiveMsgBytes_splitting [1, 2, 3, 4] _ _ (by decide)

end Net
end Hbcur
