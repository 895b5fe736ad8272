import Hbcur.Foundation.Run
import Hbcur.Net.Message
import Hbcur.Script.Number

/-!
# Messages from one node to another

`CNode::PushMessage` and `SocketSendData` of `net.cpp` on one side of a connection,
`ReceiveMsgBytes` and the loop of `ProcessMessages` of `main.cpp` on the other.  Whatever `send`
accepts and however the bytes arrive, the messages pushed are handed over once, in their order
and unchanged.  The options which drop or damage messages on purpose are left out.
-/

namespace Hbcur
namespace Net

open Foundation Serialize

/-!
# The header of a command
-/

namespace CMessageHeader

/-- A text without zeros in a field of the given size. -/
def strncpy (size : Nat) (text : List UInt8) : List UInt8 :=
  text.take size ++ List.replicate (size - text.length) 0

/-- The constructor from a command. -/
def ofCommand (messageStart pszCommand : List UInt8) (nMessageSizeIn : Nat) : CMessageHeader where
  pchMessageStart := messageStart
  pchCommand := strncpy 12 pszCommand
  nMessageSize := nMessageSizeIn
  nChecksum := 0

def getCommand (hdr : CMessageHeader) : List UInt8 :=
  hdr.pchCommand.takeWhile fun c => c != 0

/-- All zeros after the first one, and no byte above `0x7e`, be it negative as a `char` or not. -/
def commandIsValid : List UInt8 -> Bool
  | [] => true
  | c :: rest =>
      if c = 0 then rest.all fun c => c == 0
      else if c < 0x20 ∨ 0x7e < c then false
      else commandIsValid rest

def isValid (messageStart : List UInt8) (hdr : CMessageHeader) : Bool :=
  if hdr.pchMessageStart ≠ messageStart then false
  else if !commandIsValid hdr.pchCommand then false
  else if MAX_SIZE < hdr.nMessageSize then false
  else true

end CMessageHeader

/-- The first four bytes of the hash of a payload, as `memcpy` puts them into an integer. -/
def checksum (hash : List UInt8 -> List UInt8) (payload : List UInt8) : Nat :=
  valueLE ((hash payload).take 4)

/-- The magic bytes of the chain and the hash of the checksums. -/
structure Protocol where
  messageStart : List UInt8
  hash : List UInt8 -> List UInt8
  start : messageStart.length = 4

/-!
# Sending
-/

/-- What `send` returns: a number of bytes, an error after which it is tried again, or another. -/
inductive SendResult where
  | sent (nBytes : Nat)
  | again
  | failed
  deriving DecidableEq, Repr

/-- A socket, with the results of the calls of `send` which are made in turn. -/
structure Socket where
  send : Nat -> Nat -> SendResult
  sent_le : forall call size nBytes, send call size = SendResult.sent nBytes -> nBytes ≤ size

/-- The fields of `CNode` for messages to be sent. -/
structure SendSide where
  ssSend : List UInt8 := []
  vSendMsg : List (List UInt8) := []
  nSendOffset : Nat := 0
  nSendSize : Nat := 0
  nSendBytes : Nat := 0
  fDisconnect : Bool := false
  deriving DecidableEq, Repr

namespace SendSide

/--
The loop of `SocketSendData`: the bytes written, the messages which are left and the node.
Nothing is returned where the assertion fails.
-/
def socketSendLoop (socket : Socket) :
    Nat -> SendSide -> List (List UInt8) -> Option (List UInt8 × List (List UInt8) × SendSide)
  | _, node, [] => some ([], [], node)
  | call, node, data :: rest =>
      if data.length ≤ node.nSendOffset then none
      else
        match socket.send call (data.length - node.nSendOffset) with
        | SendResult.sent nBytes =>
            if nBytes = 0 then some ([], data :: rest, node)
            else
              let written := (data.drop node.nSendOffset).take nBytes
              let node :=
                { node with
                  nSendBytes := node.nSendBytes + nBytes
                  nSendOffset := node.nSendOffset + nBytes }
              if node.nSendOffset = data.length then
                let node :=
                  { node with nSendOffset := 0, nSendSize := node.nSendSize - data.length }
                match socketSendLoop socket (call + 1) node rest with
                | none => none
                | some (more, left, node) => some (written ++ more, left, node)
              -- the message could not be sent in full
              else some (written, data :: rest, node)
        | SendResult.again => some ([], data :: rest, node)
        | SendResult.failed => some ([], data :: rest, { node with fDisconnect := true })

def socketSendData (socket : Socket) (node : SendSide) : Option (List UInt8 × SendSide) :=
  match socketSendLoop socket 0 node node.vSendMsg with
  | none => none
  | some (written, left, node) =>
      if left.isEmpty && (node.nSendOffset != 0 || node.nSendSize != 0) then none
      else some (written, { node with vSendMsg := left })

def beginMessage (messageStart pszCommand : List UInt8) (node : SendSide) : Option SendSide :=
  if node.ssSend.length = 0 then
    some { node with ssSend := (CMessageHeader.ofCommand messageStart pszCommand 0).write }
  else none

def abortMessage (node : SendSide) : SendSide :=
  { node with ssSend := [] }

/-- The size and the checksum are written into the header which is there already. -/
def endMessage (hash : List UInt8 -> List UInt8) (socket : Socket) (node : SendSide) :
    Option (List UInt8 × SendSide) :=
  if node.ssSend.length = 0 then some ([], node)
  else
    let nSize := (node.ssSend.length - 24) % 4294967296
    let ssSend := memcpy node.ssSend 16 (writeLE 4 nSize)
    let nChecksum := checksum hash (ssSend.drop 24)
    if ssSend.length < 20 + 4 then none
    else
      let data := memcpy ssSend 20 (writeLE 4 nChecksum)
      let empty := node.vSendMsg.isEmpty
      let node :=
        { node with
          ssSend := []
          vSendMsg := node.vSendMsg ++ [data]
          nSendSize := node.nSendSize + data.length }
      if empty then socketSendData socket node else some ([], node)

/-- The arguments are serialized behind the header, which may throw. -/
def pushMessage (net : Protocol) (socket : Socket)
    (pszCommand : List UInt8) (arguments : Option (List UInt8)) (node : SendSide) :
    Option (List UInt8 × SendSide) :=
  match node.beginMessage net.messageStart pszCommand with
  | none => none
  | some node =>
      match arguments with
      | none => some ([], node.abortMessage)
      | some payload => endMessage net.hash socket { node with ssSend := node.ssSend ++ payload }

end SendSide

/-!
# Handing over
-/

/-- What a call of `ProcessMessages` has done. -/
structure Processed where
  fOk : Bool
  vRecvMsg : List CNetMessage
  handed : Option (List UInt8 × List UInt8)
  deriving DecidableEq, Repr

/-- The loop of `ProcessMessages`, up to the call of `ProcessMessage`. -/
def processLoop (net : Protocol) : List CNetMessage -> Processed
  | [] => { fOk := true, vRecvMsg := [], handed := none }
  | msg :: rest =>
      if !msg.complete then { fOk := true, vRecvMsg := msg :: rest, handed := none }
      else if msg.hdr.pchMessageStart ≠ net.messageStart then
        { fOk := false, vRecvMsg := rest, handed := none }
      else if !msg.hdr.isValid net.messageStart then processLoop net rest
      else if checksum net.hash (msg.vRecv.take msg.hdr.nMessageSize) ≠ msg.hdr.nChecksum then
        processLoop net rest
      else { fOk := true, vRecvMsg := rest, handed := some (msg.hdr.getCommand, msg.vRecv) }

/--
Nothing is taken while requests of the peer wait to be answered, while as much waits to be sent
as may wait, or when the node is to be disconnected.
-/
def processMessages (net : Protocol)
    (vRecvGetData nSendFull fDisconnect : Bool) (vRecvMsg : List CNetMessage) : Processed :=
  if vRecvGetData || (fDisconnect || nSendFull) then
    { fOk := true, vRecvMsg, handed := none }
  else processLoop net vRecvMsg

/-!
# What is sent
-/

/-- A message as the node pushes it. -/
structure Outgoing where
  command : List UInt8
  payload : List UInt8
  short : command.length ≤ 12
  printable : forall c, c ∈ command -> 0x20 ≤ c ∧ c ≤ 0x7e
  fits : payload.length ≤ MAX_PROTOCOL_MESSAGE_LENGTH

namespace Outgoing

def parts (m : Outgoing) : List UInt8 × List UInt8 := (m.command, m.payload)

def header (net : Protocol) (m : Outgoing) : CMessageHeader where
  pchMessageStart := net.messageStart
  pchCommand := CMessageHeader.strncpy 12 m.command
  nMessageSize := m.payload.length
  nChecksum := checksum net.hash m.payload

def frame (net : Protocol) (m : Outgoing) : Frame :=
  Frame.data (m.header net) m.payload

end Outgoing

theorem checksum_lt (hash : List UInt8 -> List UInt8) (payload : List UInt8) :
    checksum hash payload < 256 ^ 4 := by
  have hlen : ((hash payload).take 4).length ≤ 4 := by
    rw [List.length_take]
    omega
  exact Nat.lt_of_lt_of_le (Script.valueLE_lt _) (Nat.pow_le_pow_right (by decide) hlen)

theorem length_strncpy (size : Nat) (text : List UInt8) :
    (CMessageHeader.strncpy size text).length = size := by
  unfold CMessageHeader.strncpy
  rw [List.length_append, List.length_take, List.length_replicate]
  omega

theorem strncpy_of_le {size : Nat} {text : List UInt8} (h : text.length ≤ size) :
    CMessageHeader.strncpy size text = text ++ List.replicate (size - text.length) 0 := by
  unfold CMessageHeader.strncpy
  rw [List.take_of_length_le h]

theorem ne_zero_of_printable {c : UInt8} (h : 0x20 ≤ c ∧ c ≤ 0x7e) : c ≠ 0 := by
  rintro rfl
  exact absurd h.1 (by decide)

theorem commandIsValid_append_zeros (count : Nat) {command : List UInt8}
    (h : forall c, c ∈ command -> 0x20 ≤ c ∧ c ≤ 0x7e) :
    CMessageHeader.commandIsValid (command ++ List.replicate count 0) = true := by
  induction command with
  | nil =>
      cases count with
      | zero => rfl
      | succ count =>
          rw [List.nil_append, List.replicate_succ, CMessageHeader.commandIsValid, if_pos rfl,
            List.all_eq_true]
          intro c hmem
          rw [List.eq_of_mem_replicate hmem]
          rfl
  | cons c rest ih =>
      have hc := h c List.mem_cons_self
      have hrange : ¬ (c < 0x20 ∨ 0x7e < c) := by
        rintro (hlow | hhigh)
        · exact absurd hlow (UInt8.not_lt.mpr hc.1)
        · exact absurd hhigh (UInt8.not_lt.mpr hc.2)
      rw [List.cons_append, CMessageHeader.commandIsValid, if_neg (ne_zero_of_printable hc),
        if_neg hrange]
      exact ih fun c' hmem => h c' (List.mem_cons_of_mem c hmem)

namespace Outgoing

variable (net : Protocol)

theorem getCommand_header (m : Outgoing) : (m.header net).getCommand = m.command := by
  have hall : forall c, c ∈ m.command -> (c != 0) = true := fun c hmem =>
    bne_iff_ne.mpr (ne_zero_of_printable (m.printable c hmem))
  have hzeros : (List.replicate (12 - m.command.length) (0 : UInt8)).takeWhile
      (fun c => c != 0) = [] := by
    cases 12 - m.command.length with
    | zero => rfl
    | succ count => rfl
  change (CMessageHeader.strncpy 12 m.command).takeWhile _ = _
  rw [strncpy_of_le m.short, List.takeWhile_append_of_pos hall, hzeros, List.append_nil]

theorem isValid_header (m : Outgoing) : (m.header net).isValid net.messageStart = true := by
  have hmax : ¬ MAX_SIZE < (m.header net).nMessageSize := by
    have hfits := m.fits
    have hle : MAX_PROTOCOL_MESSAGE_LENGTH ≤ MAX_SIZE := by decide
    exact Nat.not_lt.mpr (Nat.le_trans hfits hle)
  have hcommand : CMessageHeader.commandIsValid (m.header net).pchCommand = true := by
    change CMessageHeader.commandIsValid (CMessageHeader.strncpy 12 m.command) = true
    rw [strncpy_of_le m.short]
    exact commandIsValid_append_zeros _ m.printable
  have hstart : ¬ (m.header net).pchMessageStart ≠ net.messageStart :=
    not_not_intro rfl
  unfold CMessageHeader.isValid
  rw [if_neg hstart, hcommand, if_neg hmax]
  rfl

theorem length_write_header (m : Outgoing) : (m.header net).write.length = 24 := by
  unfold CMessageHeader.write
  change (net.messageStart ++ (CMessageHeader.strncpy 12 m.command ++
    (writeLE 4 _ ++ writeLE 4 _))).length = _
  rw [List.length_append, List.length_append, List.length_append, length_writeLE, length_writeLE,
    length_strncpy, net.start]

theorem read_write_header (m : Outgoing) : CMessageHeader.read (m.header net).write =
      some (m.header net, []) := by
  have hsize : m.payload.length < 256 ^ 4 := by
    have hfits := m.fits
    have hle : MAX_PROTOCOL_MESSAGE_LENGTH < 256 ^ 4 := by decide
    omega
  have hcommand := length_strncpy 12 m.command
  have hread : forall rest, readLE 4 (writeLE 4 m.payload.length ++ rest) =
      some (m.payload.length, rest) := reads_writeLE hsize
  have hend : readLE 4 (writeLE 4 (checksum net.hash m.payload)) =
      some (checksum net.hash m.payload, []) := by
    have hlast := reads_writeLE (checksum_lt net.hash m.payload) []
    rwa [List.append_nil] at hlast
  change CMessageHeader.read (net.messageStart ++ (CMessageHeader.strncpy 12 m.command ++
    (writeLE 4 m.payload.length ++ writeLE 4 (checksum net.hash m.payload)))) = _
  unfold CMessageHeader.read
  simp only [CMessageHeader.readExactly_append net.start,
    CMessageHeader.readExactly_append hcommand, hread, hend]
  rfl

end Outgoing

/-!
# The bytes which wait
-/

/-- Bytes copied over as many others. -/
theorem memcpy_append {front old new back : List UInt8} (h : new.length = old.length) :
    memcpy (front ++ (old ++ back)) front.length new = front ++ (new ++ back) := by
  have hdrop : (front ++ (old ++ back)).drop (front.length + new.length) = back := by
    rw [h, ← List.append_assoc]
    exact List.drop_left' (List.length_append ..)
  unfold memcpy
  rw [List.take_left' rfl, hdrop]

namespace SendSide

/-- What holds of the messages which are left to be sent. -/
structure Waiting (left : List (List UInt8)) (node : SendSide) : Prop where
  nonempty : forall data, data ∈ left -> data ≠ []
  offset : node.nSendOffset = 0 ∨
    exists data rest, left = data :: rest ∧ node.nSendOffset < data.length
  size : node.nSendSize = left.flatten.length

theorem Waiting.offset_lt {data : List UInt8} {rest : List (List UInt8)} {node : SendSide}
    (h : node.Waiting (data :: rest)) : node.nSendOffset < data.length := by
  rcases h.offset with hzero | ⟨data', rest', heq, hlt⟩
  · rw [hzero]
    exact List.length_pos_iff.mpr (h.nonempty data List.mem_cons_self)
  · rw [List.cons.injEq] at heq
    rw [heq.1]
    exact hlt

/-- The loop writes a prefix of what waits, and no assertion fails. -/
theorem socketSendLoop_spec (socket : Socket) :
    forall (left : List (List UInt8)) (call : Nat) (node : SendSide), node.Waiting left ->
      exists written left' node',
        socketSendLoop socket call node left = some (written, left', node') ∧
        node'.Waiting left' ∧
        left.flatten.drop node.nSendOffset = written ++ left'.flatten.drop node'.nSendOffset ∧
        node'.ssSend = node.ssSend ∧ node'.nSendBytes = node.nSendBytes + written.length := by
  intro left
  induction left with
  | nil =>
      intro call node h
      exact ⟨[], [], node, rfl, h, rfl, rfl, rfl⟩
  | cons data rest ih =>
      intro call node h
      have hoffset := h.offset_lt
      have hdrop : forall count, count ≤ data.length ->
          (data :: rest).flatten.drop count = data.drop count ++ rest.flatten := by
        intro count hle
        rw [List.flatten_cons, List.drop_append_of_le_length hle]
      rw [socketSendLoop, if_neg (Nat.not_le.mpr hoffset)]
      cases hsend : socket.send call (data.length - node.nSendOffset) with
      | again => exact ⟨[], data :: rest, node, rfl, h, rfl, rfl, rfl⟩
      | failed =>
          exact ⟨[], data :: rest, { node with fDisconnect := true }, rfl,
            ⟨h.nonempty, h.offset, h.size⟩, rfl, rfl, rfl⟩
      | sent nBytes =>
          have hle := socket.sent_le call _ nBytes hsend
          simp only
          split_ifs with hzero hfull
          · exact ⟨[], data :: rest, node, rfl, h, rfl, rfl, rfl⟩
          · -- the whole of the message has been written
            have hall : (data.drop node.nSendOffset).take nBytes = data.drop node.nSendOffset := by
              apply List.take_of_length_le
              rw [List.length_drop]
              omega
            have hrest : Waiting rest
                { node with
                  nSendBytes := node.nSendBytes + nBytes
                  nSendOffset := 0
                  nSendSize := node.nSendSize - data.length } := by
              refine ⟨fun other hmem => h.nonempty other (List.mem_cons_of_mem data hmem),
                Or.inl rfl, ?_⟩
              have hsize := h.size
              rw [List.flatten_cons, List.length_append] at hsize
              change node.nSendSize - data.length = rest.flatten.length
              omega
            rcases ih (call + 1) _ hrest with ⟨more, left', node', hloop, hwait, hword, hss, hbytes⟩
            rw [hloop]
            refine ⟨_, left', node', rfl, hwait, ?_, hss, ?_⟩
            · rw [hdrop _ (Nat.le_of_lt hoffset), hall, List.append_assoc, ← hword]
              rfl
            · rw [hbytes, hall, List.length_append, List.length_drop]
              simp only
              omega
          · have hpart : node.nSendOffset + nBytes < data.length := by omega
            refine ⟨_, data :: rest, _, rfl, ⟨h.nonempty, Or.inr ⟨data, rest, rfl, hpart⟩, h.size⟩,
              ?_, rfl, ?_⟩
            · rw [hdrop _ (Nat.le_of_lt hoffset), hdrop _ (Nat.le_of_lt hpart),
                ← List.append_assoc, ← List.drop_drop, List.take_append_drop]
            · rw [List.length_take, List.length_drop]
              simp only
              omega

/-- What holds of a node between its calls. -/
structure Inv (node : SendSide) : Prop where
  idle : node.ssSend = []
  waiting : node.Waiting node.vSendMsg

/-- The bytes which wait to be sent. -/
def unsent (node : SendSide) : List UInt8 :=
  node.vSendMsg.flatten.drop node.nSendOffset

/-- What a call has written comes off what waits. -/
structure Sends (node : SendSide) (word written : List UInt8) (node' : SendSide) : Prop where
  inv : node'.Inv
  word : node.unsent ++ word = written ++ node'.unsent
  bytes : node'.nSendBytes = node.nSendBytes + written.length

theorem socketSendData_spec (socket : Socket) {node : SendSide} (h : node.Inv) :
    exists written node', socketSendData socket node = some (written, node') ∧
      node.Sends [] written node' := by
  rcases socketSendLoop_spec socket node.vSendMsg 0 node h.waiting with
    ⟨written, left, node', hloop, hwait, hword, hss, hbytes⟩
  have hend : (left.isEmpty && (node'.nSendOffset != 0 || node'.nSendSize != 0)) = false := by
    cases left with
    | cons data rest => rfl
    | nil =>
        have hsize : node'.nSendSize = 0 := hwait.size
        have hoffset : node'.nSendOffset = 0 := by
          rcases hwait.offset with hzero | ⟨data, rest, heq, _⟩
          · exact hzero
          · cases heq
        rw [hsize, hoffset]
        rfl
  unfold socketSendData
  rw [hloop]
  simp only
  rw [hend]
  refine ⟨written, { node' with vSendMsg := left }, rfl, ⟨hss.trans h.idle, ?_⟩, ?_, hbytes⟩
  · exact ⟨hwait.nonempty, hwait.offset, hwait.size⟩
  · rw [List.append_nil]
    exact hword

/-- A message at the end of those which wait. -/
def enqueue (node : SendSide) (data : List UInt8) : SendSide :=
  { node with
    vSendMsg := node.vSendMsg ++ [data]
    nSendSize := node.nSendSize + data.length }

theorem Inv.enqueue {node : SendSide} (h : node.Inv) {data : List UInt8} (hdata : data ≠ []) :
    (node.enqueue data).Inv ∧ (node.enqueue data).unsent = node.unsent ++ data := by
  have hwait := h.waiting
  have hflat : (node.vSendMsg ++ [data]).flatten = node.vSendMsg.flatten ++ data := by
    rw [List.flatten_append, List.flatten_singleton]
  refine ⟨⟨h.idle, ?_, ?_, ?_⟩, ?_⟩
  · intro other hmem
    rcases List.mem_append.mp hmem with hold | hnew
    · exact hwait.nonempty other hold
    · rw [List.mem_singleton.mp hnew]
      exact hdata
  · rcases hwait.offset with hzero | ⟨first, rest, heq, hlt⟩
    · exact Or.inl hzero
    · refine Or.inr ⟨first, rest ++ [data], ?_, hlt⟩
      change node.vSendMsg ++ [data] = _
      rw [heq, List.cons_append]
  · change node.nSendSize + data.length = (node.vSendMsg ++ [data]).flatten.length
    rw [hflat, List.length_append, hwait.size]
  · have hoffset : node.nSendOffset ≤ node.vSendMsg.flatten.length := by
      rcases hwait.offset with hzero | ⟨first, rest, heq, hlt⟩
      · rw [hzero]
        exact Nat.zero_le _
      · rw [heq, List.flatten_cons, List.length_append]
        omega
    change (node.vSendMsg ++ [data]).flatten.drop node.nSendOffset = _
    rw [hflat, List.drop_append_of_le_length hoffset]
    rfl

end SendSide

section Pushing

variable (net : Protocol) (socket : Socket)

/-- The header is written into what has been serialized, and the message is put in the queue. -/
theorem pushMessage_eq (m : Outgoing) {node : SendSide} (h : node.Inv) :
    node.pushMessage net socket m.command (some m.payload) =
      (if node.vSendMsg.isEmpty then
        (node.enqueue (m.frame net).wire).socketSendData socket
      else some ([], node.enqueue (m.frame net).wire)) := by
  have hfits := m.fits
  have hlimit : MAX_PROTOCOL_MESSAGE_LENGTH = 8388608 := rfl
  have hcommand := length_strncpy 12 m.command
  -- magic bytes and command, then the two fields which are filled in
  let front := net.messageStart ++ CMessageHeader.strncpy 12 m.command
  have hfront : front.length = 16 := by
    rw [List.length_append, net.start, hcommand]
  have hwrite : forall nMessageSize nChecksum, CMessageHeader.write
      ⟨net.messageStart, CMessageHeader.strncpy 12 m.command, nMessageSize, nChecksum⟩ ++
        m.payload = front ++ (writeLE 4 nMessageSize ++ (writeLE 4 nChecksum ++ m.payload)) := by
    intro nMessageSize nChecksum
    simp only [CMessageHeader.write, front, List.append_assoc]
  have hlength : forall nMessageSize nChecksum,
      (front ++ (writeLE 4 nMessageSize ++ (writeLE 4 nChecksum ++ m.payload))).length =
        24 + m.payload.length := by
    intro nMessageSize nChecksum
    simp only [List.length_append, length_writeLE, hfront]
    omega
  have hsize : (24 + m.payload.length - 24) % 4294967296 = m.payload.length := by
    omega
  have hset : memcpy (front ++ (writeLE 4 0 ++ (writeLE 4 0 ++ m.payload))) 16
      (writeLE 4 m.payload.length) =
        front ++ (writeLE 4 m.payload.length ++ (writeLE 4 0 ++ m.payload)) := by
    rw [← hfront]
    exact memcpy_append (by rw [length_writeLE, length_writeLE])
  have hpayload : (front ++ (writeLE 4 m.payload.length ++ (writeLE 4 0 ++ m.payload))).drop 24 =
      m.payload := by
    rw [← List.append_assoc, ← List.append_assoc]
    apply List.drop_left'
    simp only [List.length_append, length_writeLE, hfront]
  have hsum : memcpy (front ++ (writeLE 4 m.payload.length ++ (writeLE 4 0 ++ m.payload))) 20
      (writeLE 4 (checksum net.hash m.payload)) = (m.frame net).wire := by
    have hword := hwrite m.payload.length (checksum net.hash m.payload)
    have hlen : (front ++ writeLE 4 m.payload.length).length = 20 := by
      rw [List.length_append, hfront, length_writeLE]
    change _ = CMessageHeader.write _ ++ m.payload
    rw [Outgoing.header, hword, ← List.append_assoc, ← List.append_assoc front, ← hlen]
    exact memcpy_append (by rw [length_writeLE, length_writeLE])
  rcases node with ⟨ssSend, vSendMsg, nSendOffset, nSendSize, nSendBytes, fDisconnect⟩
  have hidle : ssSend = [] := h.idle
  subst hidle
  unfold SendSide.pushMessage SendSide.beginMessage
  simp only [List.length_nil, if_true, CMessageHeader.ofCommand, SendSide.endMessage, hwrite,
    hlength]
  rw [if_neg (by omega), hsize, hset, hlength, if_neg (by omega), hpayload, hsum]
  rfl

theorem pushMessage_spec (m : Outgoing) {node : SendSide} (h : node.Inv) : exists written node',
      node.pushMessage net socket m.command (some m.payload) =
        some (written, node') ∧
      node.Sends (m.frame net).wire written node' := by
  have hne : (m.frame net).wire ≠ [] := by
    have hlen := m.length_write_header net
    rw [← List.length_pos_iff]
    change 0 < ((m.header net).write ++ m.payload).length
    rw [List.length_append, hlen]
    omega
  rcases h.enqueue hne with ⟨hinv, hunsent⟩
  rw [pushMessage_eq net socket m h]
  split_ifs
  · rcases SendSide.socketSendData_spec socket hinv with ⟨written, node', heq, hsends⟩
    refine ⟨written, node', heq, hsends.inv, ?_, hsends.bytes⟩
    rw [← hunsent, ← hsends.word, List.append_nil]
  · exact ⟨[], _, rfl, hinv, hunsent.symm, rfl⟩

/-- A message whose arguments cannot be serialized leaves nothing behind. -/
theorem pushMessage_none (pszCommand : List UInt8) {node : SendSide} (h : node.Inv) :
    node.pushMessage net socket pszCommand none = some ([], node) := by
  rcases node with ⟨ssSend, vSendMsg, nSendOffset, nSendSize, nSendBytes, fDisconnect⟩
  have hidle : ssSend = [] := h.idle
  subst hidle
  rfl

end Pushing

/-!
# What is received
-/

section Stream

variable {net : Protocol}

theorem complete_frame (m : Outgoing) : (m.frame net).complete = true :=
  beq_self_eq_true _

theorem complete_of_mem (ms : List Outgoing) (frame : Frame)
    (h : frame ∈ ms.map (Outgoing.frame net)) : frame.complete = true := by
  rcases List.mem_map.mp h with ⟨m, _, rfl⟩
  exact complete_frame m

theorem openLast_of_complete {item : Type} {complete : item -> Bool} {fresh : item} {l : List item}
    (h : forall x, x ∈ l -> complete x = true) : openLast complete fresh l = (l, fresh) := by
  unfold openLast
  cases hlast : l.getLast? with
  | none => rw [List.getLast?_eq_none_iff.mp hlast]
  | some last =>
      simp only
      rw [h last (List.mem_of_getLast? hlast), if_pos rfl]

/-- The bytes of a message become that message. -/
theorem feed_wire (m : Outgoing) {done : List Frame}
    (h : forall frame, frame ∈ done -> frame.complete = true) :
    feed frameStep done (m.frame net).wire =
      some (done ++ [m.frame net]) := by
  have hlen := m.length_write_header net
  have hne : (m.header net).write ≠ [] := by
    rw [← List.length_pos_iff, hlen]
    decide
  have hheader := feed_header_full done hne (by rw [hlen]; rfl : ([] : List UInt8).length + _ = 24)
  rw [List.nil_append, m.read_write_header net] at hheader
  have hfits : ¬ MAX_PROTOCOL_MESSAGE_LENGTH < (m.header net).nMessageSize :=
    Nat.not_lt.mpr m.fits
  simp only at hheader
  rw [if_neg hfits] at hheader
  change feed frameStep done ((m.header net).write ++ m.payload) = _
  rw [feed_append, feed_opened done hne, openLast_of_complete h, hheader, Option.bind_some,
    feed_data done _ m.payload [] (by rw [List.length_nil, Nat.zero_add]; exact Nat.le_refl _)]
  rfl

/-- Messages which are complete are left alone by what comes later. -/
theorem feed_complete_append {done : List Frame}
    (h : forall frame, frame ∈ done -> frame.complete = true) (word : List UInt8) :
    forall frames, feed frameStep (done ++ frames) word =
      (feed frameStep frames word).map fun frames' => done ++ frames' := by
  have hopen : forall frames : List Frame,
      openLast Frame.complete (Frame.header []) (done ++ frames) =
        (done ++ (openLast Frame.complete (Frame.header []) frames).1,
          (openLast Frame.complete (Frame.header []) frames).2) := by
    intro frames
    rcases List.eq_nil_or_concat frames with rfl | ⟨front, last, rfl⟩
    · rw [List.append_nil, openLast_of_complete h]
      exact Prod.ext (List.append_nil done).symm rfl
    · unfold openLast
      rw [List.concat_eq_append, ← List.append_assoc, List.getLast?_concat, List.getLast?_concat]
      simp only
      split_ifs
      · rw [List.append_assoc]
      · rw [List.dropLast_concat, List.dropLast_concat]
  induction word with
  | nil =>
      intro frames
      rfl
  | cons b rest ih =>
      intro frames
      rw [feed, feed, frameStep, frameStep, hopen]
      simp only
      cases (openLast Frame.complete (Frame.header []) frames).2.next b with
      | none => rfl
      | some frame' =>
          simp only
          rw [List.append_assoc, ih]

/-- The stream of the messages pushed. -/
def stream (net : Protocol) (ms : List Outgoing) : List UInt8 :=
  ms.flatMap fun m => (m.frame net).wire

theorem feed_stream (ms : List Outgoing) :
    feed frameStep [] (stream net ms) = some (ms.map (Outgoing.frame net)) := by
  induction ms with
  | nil => rfl
  | cons m rest ih =>
      have hfirst : feed frameStep [] (m.frame net).wire = some ([] ++ [m.frame net]) :=
        feed_wire m fun frame hmem => absurd hmem List.not_mem_nil
      have hrest : feed frameStep [m.frame net] (stream net rest) = _ :=
        feed_complete_append (complete_of_mem [m]) (stream net rest) []
      change feed frameStep [] ((m.frame net).wire ++ stream net rest) = _
      rw [feed_append, hfirst, Option.bind_some, List.nil_append, hrest, ih]
      rfl

end Stream

/-!
# The connection

The bytes which have been written and not yet received are in flight.  The messages pushed, the
bytes received and the messages handed over are kept as history.
-/

structure Link where
  sender : SendSide := {}
  wire : List UInt8 := []
  vRecvMsg : List CNetMessage := []
  cut : Bool := false
  pushed : List Outgoing := []
  received : List UInt8 := []
  handed : List (List UInt8 × List UInt8) := []

namespace Link

/-- Bytes which are written once the connection is gone are lost. -/
def write (s : Link) (written : List UInt8) (sender : SendSide) : Link :=
  { s with sender, wire := if s.cut then [] else s.wire ++ written }

/-- The steps of both nodes and of the network, in any order. -/
inductive Step (net : Protocol) :
    Link -> Link -> Prop where
  | push {s : Link} (m : Outgoing) (socket : Socket) {written : List UInt8} {sender : SendSide}
      (h : s.sender.pushMessage net socket m.command (some m.payload) =
        some (written, sender)) :
      Step net s { s.write written sender with pushed := s.pushed ++ [m] }
  | abort {s : Link} (pszCommand : List UInt8) (socket : Socket) {written : List UInt8}
      {sender : SendSide}
      (h : s.sender.pushMessage net socket pszCommand none = some (written, sender)) :
      Step net s (s.write written sender)
  | send {s : Link} (socket : Socket) {written : List UInt8} {sender : SendSide}
      (h : s.sender.socketSendData socket = some (written, sender)) :
      Step net s (s.write written sender)
  | receive {s : Link} {chunk left : List UInt8} {vRecvMsg : List CNetMessage}
      (hcut : s.cut = false) (hwire : s.wire = chunk ++ left)
      (h : receiveMsgBytes net.messageStart s.vRecvMsg chunk = some (Receipt.received vRecvMsg)) :
      Step net s { s with wire := left, vRecvMsg, received := s.received ++ chunk }
  | refuse {s : Link} {chunk left : List UInt8} (hcut : s.cut = false)
      (hwire : s.wire = chunk ++ left)
      (h : receiveMsgBytes net.messageStart s.vRecvMsg chunk = some Receipt.refused) :
      Step net s { s with wire := [], vRecvMsg := [], cut := true }
  | process {s : Link} (vRecvGetData nSendFull : Bool) {result : Processed}
      (h : result = processMessages net vRecvGetData nSendFull s.cut s.vRecvMsg) :
      Step net s
        { s with
          wire := if result.fOk then s.wire else []
          vRecvMsg := if result.fOk then result.vRecvMsg else []
          cut := s.cut || !result.fOk
          handed := s.handed ++ result.handed.toList }
  | disconnect {s : Link} (vRecvMsg : List CNetMessage) :
      Step net s { s with wire := [], vRecvMsg, cut := true }

/-- The states which any run of the two nodes may reach. -/
def Reached (net : Protocol) : Link -> Prop :=
  Reachable (fun s (_ : Unit) s' => Step net s s') (fun _ _ => True) {}

/-- What both nodes agree on as long as the connection stands. -/
structure Open (net : Protocol) (s : Link) (done : List Outgoing) : Prop where
  stream : stream net s.pushed = s.received ++ (s.wire ++ s.sender.unsent)
  feed : feed frameStep [] s.received =
    some (done.map (Outgoing.frame net) ++ s.vRecvMsg.map CNetMessage.view)
  receiving : AllReceiving net.messageStart s.vRecvMsg
  bytes : s.sender.nSendBytes = s.received.length + s.wire.length

structure Inv (net : Protocol) (s : Link) : Prop where
  sender : s.sender.Inv
  history : exists done rest, s.pushed = done ++ rest ∧ s.handed = done.map Outgoing.parts ∧
    (s.cut = false -> s.Open net done)

section Invariant

variable {net : Protocol}

/-- The messages which have not been handed over are those which the receiver will see. -/
theorem Open.rest {s : Link} {done rest : List Outgoing}
    (h : s.Open net done) (hpushed : s.pushed = done ++ rest) :
    Foundation.feed frameStep (s.vRecvMsg.map CNetMessage.view) (s.wire ++ s.sender.unsent) =
      some (rest.map (Outgoing.frame net)) := by
  have hall : Foundation.feed frameStep [] (Net.stream net s.pushed) = _ :=
    feed_stream s.pushed
  rw [h.stream, feed_append, h.feed, Option.bind_some,
    feed_complete_append (complete_of_mem done), hpushed,
    List.map_append, Option.map_eq_some_iff] at hall
  rcases hall with ⟨frames, hfeed, heq⟩
  rw [hfeed, List.append_cancel_left heq]

/-- A message which has become the frame of a pushed one. -/
theorem eq_of_view {msg : CNetMessage} (h : Receiving net.messageStart msg) {m : Outgoing}
    (hview : msg.view = m.frame net) :
    msg.complete = true ∧ msg.hdr = m.header net ∧ msg.vRecv = m.payload := by
  have hcomplete : msg.complete = true := by
    rw [← h.complete_view, hview]
    exact complete_frame m
  have hwhole := h.whole hcomplete
  cases h with
  | header hbuf hpos => cases hview
  | @data hdr vRecv nDataPos hsize hdata hrecv =>
      have hparts : hdr = m.header net ∧ vRecv.take nDataPos = m.payload :=
        Frame.data.inj hview
      refine ⟨hcomplete, hparts.1, ?_⟩
      rw [← hparts.2]
      exact (List.take_of_length_le (Nat.le_of_eq hwhole.1.symm)).symm

theorem parts_of_views :
    forall (msgs : List CNetMessage) (ms : List Outgoing), AllReceiving net.messageStart msgs ->
      msgs.map CNetMessage.view = ms.map (Outgoing.frame net) ->
      (msgs.map fun msg => (msg.hdr.getCommand, msg.vRecv)) = ms.map Outgoing.parts ∧
        forall msg, msg ∈ msgs -> msg.complete = true := by
  intro msgs
  induction msgs with
  | nil =>
      intro ms _ heq
      rw [List.map_nil, eq_comm, List.map_eq_nil_iff] at heq
      rw [heq]
      exact ⟨rfl, fun msg hmem => absurd hmem List.not_mem_nil⟩
  | cons msg msgs ih =>
      intro ms hreceiving heq
      cases ms with
      | nil => cases heq
      | cons m ms =>
          rw [List.map_cons, List.map_cons, List.cons.injEq] at heq
          rcases eq_of_view (hreceiving msg List.mem_cons_self) heq.1 with
            ⟨hcomplete, hhdr, hpayload⟩
          rcases ih ms (fun other hmem => hreceiving other (List.mem_cons_of_mem msg hmem))
            heq.2 with ⟨hparts, hmore⟩
          constructor
          · rw [List.map_cons, List.map_cons, hparts, hhdr, hpayload, m.getCommand_header]
            rfl
          · intro other hmem
            rcases List.mem_cons.mp hmem with rfl | hmem
            · exact hcomplete
            · exact hmore other hmem

/-- A complete message at the front is handed over as it was pushed. -/
theorem Open.processLoop_eq {s : Link} {done rest : List Outgoing} (h : s.Open net done)
    (hpushed : s.pushed = done ++ rest) {msg : CNetMessage} {msgs : List CNetMessage}
    (hmsgs : s.vRecvMsg = msg :: msgs) (hcomplete : msg.complete = true) :
    exists m rest', rest = m :: rest' ∧ msg.view = m.frame net ∧
      processLoop net s.vRecvMsg =
        { fOk := true, vRecvMsg := msgs, handed := some m.parts } := by
  have hrest := h.rest hpushed
  have hmsg := h.receiving msg (by rw [hmsgs]; exact List.mem_cons_self)
  have hfront : forall frame, frame ∈ [msg.view] -> frame.complete = true := by
    intro frame hmem
    rw [List.mem_singleton.mp hmem, hmsg.complete_view, hcomplete]
  have happend := feed_complete_append hfront (s.wire ++ s.sender.unsent)
    (msgs.map CNetMessage.view)
  rw [hmsgs, List.map_cons] at hrest
  change Foundation.feed frameStep (msg.view :: msgs.map CNetMessage.view) _ = _ at happend
  rw [hrest, eq_comm, Option.map_eq_some_iff] at happend
  rcases happend with ⟨frames, _, heq⟩
  cases rest with
  | nil => cases heq
  | cons m rest' =>
      rw [List.map_cons, List.singleton_append, List.cons.injEq] at heq
      rcases eq_of_view hmsg heq.1 with ⟨_, hhdr, hpayload⟩
      have hsame : ¬ (m.header net).pchMessageStart ≠ net.messageStart :=
        not_not_intro rfl
      have hsum : ¬ checksum net.hash (m.payload.take (m.header net).nMessageSize) ≠
          (m.header net).nChecksum := by
        rw [not_not]
        change checksum net.hash (m.payload.take m.payload.length) = _
        rw [List.take_length]
        rfl
      refine ⟨m, rest', rfl, heq.1, ?_⟩
      rw [hmsgs, processLoop, hcomplete, hhdr, hpayload, m.isValid_header net,
        if_neg (by decide), if_neg hsame, if_neg (by decide), if_neg hsum, m.getCommand_header]
      rfl

theorem receiveMsgBytes_matches {vRecvMsg : List CNetMessage}
    (h : AllReceiving net.messageStart vRecvMsg) (chunk : List UInt8) :
    Receipt.Matches (AllReceiving net.messageStart) (List.map CNetMessage.view)
      (receiveMsgBytes net.messageStart vRecvMsg chunk)
      (Foundation.feed frameStep (vRecvMsg.map CNetMessage.view) chunk) :=
  receiveLoop_matches receiveRound_simulates chunk.length vRecvMsg chunk h (Nat.le_refl _)

/-- Whatever arrives next is accepted. -/
theorem Open.receives {s : Link} {done rest : List Outgoing}
    (h : s.Open net done) (hpushed : s.pushed = done ++ rest)
    {chunk left : List UInt8} (hwire : s.wire = chunk ++ left) :
    exists vRecvMsg, receiveMsgBytes net.messageStart s.vRecvMsg chunk =
        some (Receipt.received vRecvMsg) ∧
      AllReceiving net.messageStart vRecvMsg ∧
      Foundation.feed frameStep (s.vRecvMsg.map CNetMessage.view) chunk =
        some (vRecvMsg.map CNetMessage.view) := by
  have hrest := h.rest hpushed
  have hmatch := receiveMsgBytes_matches h.receiving chunk
  rw [hwire, List.append_assoc, feed_append] at hrest
  cases hfeed : Foundation.feed frameStep (s.vRecvMsg.map CNetMessage.view) chunk with
  | none =>
      rw [hfeed] at hrest
      cases hrest
  | some frames =>
      rw [hfeed] at hmatch
      rcases exists_received_of_matches hmatch with ⟨vRecvMsg, heq, hall, rfl⟩
      exact ⟨vRecvMsg, heq, hall, rfl⟩

/-- A call on the sending side puts what it has written on the wire. -/
theorem Inv.write {s : Link} (h : s.Inv net) {ms : List Outgoing}
    {written : List UInt8} {sender : SendSide}
    (hsends : s.sender.Sends (Net.stream net ms) written sender) :
    Link.Inv net { s.write written sender with pushed := s.pushed ++ ms } := by
  rcases h.history with ⟨done, rest, hpushed, hhanded, hopen⟩
  refine ⟨hsends.inv, done, rest ++ ms, ?_, hhanded, ?_⟩
  · change s.pushed ++ ms = _
    rw [hpushed, List.append_assoc]
  · intro hcut
    have hstands : s.cut = false := hcut
    have hold := hopen hstands
    have hword := hsends.word
    have hwire : (s.write written sender).wire = s.wire ++ written := by
      unfold Link.write
      simp only
      rw [hstands]
      rfl
    refine ⟨?_, hold.feed, hold.receiving, ?_⟩
    · change Net.stream net (s.pushed ++ ms) =
        s.received ++ ((s.write written sender).wire ++ sender.unsent)
      have hboth : Net.stream net (s.pushed ++ ms) =
          Net.stream net s.pushed ++ Net.stream net ms :=
        List.flatMap_append
      rw [hwire, hboth, hold.stream, List.append_assoc, List.append_assoc, List.append_assoc, hword]
    · change sender.nSendBytes = s.received.length + (s.write written sender).wire.length
      rw [hwire, hsends.bytes, hold.bytes, List.length_append]
      omega

theorem Inv.cut {s : Link} (h : s.Inv net) (wire : List UInt8) (vRecvMsg : List CNetMessage) :
    Link.Inv net { s with wire, vRecvMsg, cut := true } := by
  rcases h.history with ⟨done, rest, hpushed, hhanded, _⟩
  refine ⟨h.sender, done, rest, hpushed, hhanded, ?_⟩
  intro hcut
  cases hcut

theorem Inv.process {s : Link} (h : s.Inv net) (vRecvGetData nSendFull : Bool) {result : Processed}
    (hresult : result =
      processMessages net vRecvGetData nSendFull s.cut s.vRecvMsg) :
    result.fOk = true ∧
      Link.Inv net
        { s with vRecvMsg := result.vRecvMsg, handed := s.handed ++ result.handed.toList } := by
  have hstay : (Link.Inv net
      { s with vRecvMsg := s.vRecvMsg, handed := s.handed ++ (none : Option _).toList }) := by
    rw [Option.toList_none, List.append_nil]
    exact h
  unfold processMessages at hresult
  split_ifs at hresult with hidle
  · subst hresult
    exact ⟨rfl, hstay⟩
  · have hcut : s.cut = false := by
      cases hcase : s.cut with
      | false => rfl
      | true =>
          rw [hcase] at hidle
          simp at hidle
    rcases h.history with ⟨done, rest, hpushed, hhanded, hopen⟩
    have hold := hopen hcut
    cases hmsgs : s.vRecvMsg with
    | nil =>
        rw [hmsgs] at hresult hstay
        subst hresult
        exact ⟨rfl, hstay⟩
    | cons msg msgs =>
        cases hcomplete : msg.complete with
        | false =>
            rw [hmsgs, processLoop, hcomplete, if_pos (by decide)] at hresult
            rw [hmsgs] at hstay
            subst hresult
            exact ⟨rfl, hstay⟩
        | true =>
            rcases hold.processLoop_eq hpushed hmsgs hcomplete with
              ⟨m, rest', rfl, hview, heq⟩
            rw [heq] at hresult
            subst hresult
            refine ⟨rfl, h.sender, done ++ [m], rest', ?_, ?_, fun _ => ⟨hold.stream, ?_, ?_,
              hold.bytes⟩⟩
            · rw [List.append_assoc, List.singleton_append]
              exact hpushed
            · change s.handed ++ [m.parts] = _
              rw [hhanded, List.map_append]
              rfl
            · have hfeed := hold.feed
              rw [hmsgs, List.map_cons, hview] at hfeed
              rw [List.map_append, List.append_assoc]
              exact hfeed
            · intro other hmem
              apply hold.receiving
              rw [hmsgs]
              exact List.mem_cons_of_mem msg hmem

theorem Inv.step {s s' : Link} (h : s.Inv net) (hstep : Step net s s') : s'.Inv net := by
  have hsame : forall {written sender}, s.sender.Sends [] written sender ->
      Link.Inv net (s.write written sender) := by
    intro written sender hsends
    have hnone : s.sender.Sends (Net.stream net []) written sender := hsends
    have hwrite := h.write hnone
    rw [List.append_nil] at hwrite
    exact hwrite
  cases hstep with
  | @push m socket written sender hpush =>
      rcases pushMessage_spec net socket m h.sender with ⟨written', sender', heq, hsends⟩
      cases heq.symm.trans hpush
      apply h.write
      rw [stream, List.flatMap_singleton]
      exact hsends
  | @abort pszCommand socket written sender habort =>
      cases (pushMessage_none net socket pszCommand h.sender).symm.trans habort
      exact hsame ⟨h.sender, List.append_nil _, rfl⟩
  | @send socket written sender hsend =>
      rcases SendSide.socketSendData_spec socket h.sender with ⟨written', sender', heq, hsends⟩
      cases heq.symm.trans hsend
      exact hsame hsends
  | @receive chunk left vRecvMsg hcut hwire hreceive =>
      rcases h.history with ⟨done, rest, hpushed, hhanded, hopen⟩
      have hold := hopen hcut
      rcases hold.receives hpushed hwire with ⟨vRecvMsg', heq, hall, hfeed⟩
      cases heq.symm.trans hreceive
      refine ⟨h.sender, done, rest, hpushed, hhanded, fun _ => ⟨?_, ?_, hall, ?_⟩⟩
      · have hstream := hold.stream
        rw [hwire] at hstream
        simp only [List.append_assoc] at hstream ⊢
        exact hstream
      · rw [feed_append, hold.feed, Option.bind_some,
          feed_complete_append (complete_of_mem done), hfeed]
        rfl
      · have hbytes := hold.bytes
        rw [hwire, List.length_append] at hbytes
        simp only [List.length_append]
        omega
  | @refuse chunk left hcut hwire hrefuse =>
      exact h.cut [] []
  | @process vRecvGetData nSendFull result hresult =>
      rcases h.process vRecvGetData nSendFull hresult with ⟨hok, hinv⟩
      rw [hok, if_pos rfl, if_pos rfl, Bool.not_true, Bool.or_false]
      exact hinv
  | @disconnect vRecvMsg => exact h.cut [] vRecvMsg

theorem inv_initial : Link.Inv net {} := by
  refine ⟨⟨rfl, ?_, Or.inl rfl, rfl⟩, [], [], rfl, rfl, fun _ => ⟨rfl, rfl, ?_, rfl⟩⟩
  · intro data hmem
    cases hmem
  · intro msg hmem
    cases hmem

theorem Reached.inv {s : Link} (h : Reached net s) : s.Inv net :=
  invariant_of_reachable inv_initial (fun _ _ _ hinv _ hstep => hinv.step hstep) h

end Invariant

/-- What the two nodes may rely on. -/
structure Reliable (net : Protocol) (s : Link) : Prop where
  inOrder : s.handed <+: s.pushed.map Outgoing.parts
  asserts : forall (socket : Socket) (m : Outgoing), s.sender.socketSendData socket ≠ none ∧
    s.sender.pushMessage net socket m.command (some m.payload) ≠ none
  counters : s.sender.nSendSize = s.sender.vSendMsg.flatten.length ∧
    (s.cut = false -> s.sender.nSendBytes = s.received.length + s.wire.length)
  accepted : s.cut = false -> forall chunk left, s.wire = chunk ++ left ->
    exists vRecvMsg,
      receiveMsgBytes net.messageStart s.vRecvMsg chunk = some (Receipt.received vRecvMsg)
  sound : forall vRecvGetData nSendFull,
    (processMessages net vRecvGetData nSendFull s.cut s.vRecvMsg).fOk = true
  taken : s.cut = false -> forall msg msgs, s.vRecvMsg = msg :: msgs -> msg.complete = true ->
    exists m, s.pushed[s.handed.length]? = some m ∧
      processMessages net false false s.cut s.vRecvMsg =
        { fOk := true, vRecvMsg := msgs, handed := some m.parts }
  drained : s.cut = false -> s.wire = [] -> s.sender.vSendMsg = [] ->
    s.handed ++ (s.vRecvMsg.map fun msg => (msg.hdr.getCommand, msg.vRecv)) =
        s.pushed.map Outgoing.parts ∧
      forall msg, msg ∈ s.vRecvMsg -> msg.complete = true

/--
Whatever the two nodes and the network do, the messages handed over are the first of those pushed,
each once, in order and unchanged.  As long as the connection stands, everything which arrives is
accepted, the next complete message is the next one pushed, and when nothing is left to be sent
or to arrive, all the messages are there.
-/
theorem reliable_of_reached (net : Protocol) (s : Link) (h : Reached net s) : s.Reliable net := by
  have hinv := h.inv
  rcases hinv.history with ⟨done, rest, hpushed, hhanded, hopen⟩
  constructor
  · rw [hhanded, hpushed, List.map_append]
    exact List.prefix_append _ _
  · intro socket m
    rcases SendSide.socketSendData_spec socket hinv.sender with ⟨_, _, hsend, _⟩
    rcases pushMessage_spec net socket m hinv.sender with ⟨_, _, hpush, _⟩
    rw [hsend, hpush]
    exact ⟨Option.some_ne_none _, Option.some_ne_none _⟩
  · exact ⟨hinv.sender.waiting.size, fun hcut => (hopen hcut).bytes⟩
  · intro hcut chunk left hwire
    rcases (hopen hcut).receives hpushed hwire with ⟨vRecvMsg, heq, _, _⟩
    exact ⟨vRecvMsg, heq⟩
  · intro vRecvGetData nSendFull
    exact (hinv.process vRecvGetData nSendFull rfl).1
  · intro hcut msg msgs hmsgs hcomplete
    rcases (hopen hcut).processLoop_eq hpushed hmsgs hcomplete with
      ⟨m, rest', rfl, _, heq⟩
    refine ⟨m, ?_, ?_⟩
    · rw [hpushed, hhanded, List.length_map, List.getElem?_append_right (Nat.le_refl _),
        Nat.sub_self]
      rfl
    · rw [hcut]
      exact heq
  · intro hcut hwire hqueue
    have hold := hopen hcut
    have hunsent : s.sender.unsent = [] := by
      unfold SendSide.unsent
      rw [hqueue, List.flatten_nil, List.drop_nil]
    have hviews := hold.rest hpushed
    rw [hwire, hunsent, List.append_nil, feed, Option.some.injEq] at hviews
    rcases parts_of_views s.vRecvMsg rest hold.receiving hviews with ⟨hparts, hcomplete⟩
    refine ⟨?_, hcomplete⟩
    rw [hparts, hhanded, hpushed, List.map_append]

/-!
# A message which goes through
-/

namespace PingExample

theorem printable_ping : forall c, c ∈ [112, 105, 110, 103] -> (0x20 : UInt8) ≤ c ∧ c ≤ 0x7e := by
  simp only [List.mem_cons, List.not_mem_nil, or_false]
  rintro c (rfl | rfl | rfl | rfl) <;> decide

def ping : Outgoing where
  command := [112, 105, 110, 103]
  payload := [7, 8]
  short := by decide
  printable := printable_ping
  fits := by decide

def greedy : Socket where
  send := fun _ size => SendResult.sent size
  sent_le := by
    intro call size nBytes h
    rw [SendResult.sent.inj h]

def net : Protocol where
  messageStart := [1, 2, 3, 4]
  hash := fun _ => List.replicate 32 0
  start := rfl

/-- The message has been written and received in full. -/
def received : Link where
  sender := { nSendBytes := 26 }
  vRecvMsg :=
    [{ inData := true, hdrbuf := [], hdr := ping.header net, nHdrPos := 24, vRecv := [7, 8],
       nDataPos := 2 }]
  pushed := [ping]
  received := (ping.frame net).wire

theorem reached_received : Reached net received := by
  have hpush : SendSide.pushMessage net greedy ping.command (some ping.payload) {} =
      some ((ping.frame net).wire, { nSendBytes := 26 }) := by decide +kernel
  have hreceive : receiveMsgBytes net.messageStart [] (ping.frame net).wire =
      some (Receipt.received received.vRecvMsg) := rfl
  have hfirst : Reached net _ :=
    Reachable.start.step (o := ()) trivial (Step.push ping greedy hpush)
  exact hfirst.step (o := ()) trivial (Step.receive rfl (List.append_nil _).symm hreceive)

theorem reliable_received : received.Reliable net :=
  reliable_of_reached net received reached_received

end PingExample

end Link

end Net
end Hbcur
