import Mathlib.Data.Fintype.Pi
import Hbcur.Serialize.Bytes

/-!
# Network addresses

`CNetAddr` and `CService` of `netbase.cpp`, and `CAddress` of `protocol.h` as it is written with
`SER_DISK`.
-/

namespace Hbcur
namespace Net

open Foundation Serialize

/-- An IPv6 address, or an IPv4 address in the mapped range, in network byte order. -/
structure CNetAddr where
  ip : Fin 16 -> UInt8
  deriving DecidableEq

namespace CNetAddr

variable (addr : CNetAddr)

/-- `memset(ip, 0, sizeof(ip))` -/
def init : CNetAddr := ⟨fun _ => 0⟩

def bytes : List UInt8 := List.ofFn addr.ip

def getByte (n : Fin 16) : UInt8 := addr.ip n.rev

/-- `memcmp(ip, pch, sizeof(pch)) == 0` -/
def startsWith (pch : List UInt8) : Bool := addr.bytes.take pch.length == pch

def pchIPv4 : List UInt8 := [0, 0, 0, 0, 0, 0, 0, 0, 0, 0, 0xff, 0xff]

def pchOnionCat : List UInt8 := [0xFD, 0x87, 0xD8, 0x7E, 0xEB, 0x43]

def pchRFC6052 : List UInt8 := [0, 0x64, 0xFF, 0x9B, 0, 0, 0, 0, 0, 0, 0, 0]

def pchRFC4862 : List UInt8 := [0xFE, 0x80, 0, 0, 0, 0, 0, 0]

def pchRFC6145 : List UInt8 := [0, 0, 0, 0, 0, 0, 0, 0, 0xFF, 0xFF, 0, 0]

def pchLocal : List UInt8 := [0, 0, 0, 0, 0, 0, 0, 0, 0, 0, 0, 0, 0, 0, 0, 1]

def isIPv4 : Bool := addr.startsWith pchIPv4

def isRFC1918 : Bool :=
  addr.isIPv4 && (addr.getByte 3 == 10 ||
    (addr.getByte 3 == 192 && addr.getByte 2 == 168) ||
    (addr.getByte 3 == 172 && (addr.getByte 2 ≥ 16 && addr.getByte 2 ≤ 31)))

def isRFC2544 : Bool :=
  addr.isIPv4 && addr.getByte 3 == 198 && (addr.getByte 2 == 18 || addr.getByte 2 == 19)

def isRFC3927 : Bool :=
  addr.isIPv4 && (addr.getByte 3 == 169 && addr.getByte 2 == 254)

def isRFC6598 : Bool :=
  addr.isIPv4 && addr.getByte 3 == 100 && addr.getByte 2 ≥ 64 && addr.getByte 2 ≤ 127

def isRFC5737 : Bool :=
  addr.isIPv4 &&
    ((addr.getByte 3 == 192 && addr.getByte 2 == 0 && addr.getByte 1 == 2) ||
      (addr.getByte 3 == 198 && addr.getByte 2 == 51 && addr.getByte 1 == 100) ||
      (addr.getByte 3 == 203 && addr.getByte 2 == 0 && addr.getByte 1 == 113))

def isRFC3849 : Bool :=
  addr.getByte 15 == 0x20 && addr.getByte 14 == 0x01 && addr.getByte 13 == 0x0D &&
    addr.getByte 12 == 0xB8

def isRFC3964 : Bool := addr.getByte 15 == 0x20 && addr.getByte 14 == 0x02

def isRFC6052 : Bool := addr.startsWith pchRFC6052

def isRFC4380 : Bool :=
  addr.getByte 15 == 0x20 && addr.getByte 14 == 0x01 && addr.getByte 13 == 0 &&
    addr.getByte 12 == 0

def isRFC4862 : Bool := addr.startsWith pchRFC4862

def isRFC4193 : Bool := addr.getByte 15 &&& 0xFE == 0xFC

def isRFC6145 : Bool := addr.startsWith pchRFC6145

def isRFC4843 : Bool :=
  addr.getByte 15 == 0x20 && addr.getByte 14 == 0x01 && addr.getByte 13 == 0x00 &&
    addr.getByte 12 &&& 0xF0 == 0x10

def isTor : Bool := addr.startsWith pchOnionCat

def isLocal : Bool :=
  if addr.isIPv4 && (addr.getByte 3 == 127 || addr.getByte 3 == 0) then true
  else addr.startsWith pchLocal

def isValid : Bool :=
  -- a list of addresses read three bytes out of place
  if addr.startsWith (pchIPv4.drop 3) then false
  else if addr.startsWith (List.replicate 16 0) then false
  else if addr.isRFC3849 then false
  else if addr.isIPv4 then
    addr.bytes.drop 12 != List.replicate 4 0xFF && addr.bytes.drop 12 != List.replicate 4 0
  else true

def isRoutable : Bool :=
  addr.isValid && !(addr.isRFC1918 || addr.isRFC2544 || addr.isRFC3927 || addr.isRFC4862 ||
    addr.isRFC6598 || addr.isRFC5737 || (addr.isRFC4193 && !addr.isTor) || addr.isRFC4843 ||
    addr.isLocal)

def NET_UNROUTABLE : UInt8 := 0

def NET_IPV4 : UInt8 := 1

def NET_IPV6 : UInt8 := 2

def NET_TOR : UInt8 := 3

/-- The class, then `nBits` bits of the address from `nStartByte` on. -/
def groupOf (nClass : UInt8) (nStartByte nBits : Nat) : List UInt8 :=
  nClass :: (addr.bytes.drop nStartByte).take (nBits / 8) ++
    if nBits % 8 = 0 then []
    else [addr.bytes.getD (nStartByte + nBits / 8) 0 |||
      UInt8.ofNat ((1 <<< (nBits % 8)) - 1)]

def getGroup : List UInt8 :=
  if !addr.isRoutable then addr.groupOf NET_UNROUTABLE 0 0
  else if addr.isIPv4 || addr.isRFC6145 || addr.isRFC6052 then
    addr.groupOf NET_IPV4 12 (if addr.isLocal then 0 else 16)
  else if addr.isRFC3964 then addr.groupOf NET_IPV4 2 (if addr.isLocal then 0 else 16)
  else if addr.isRFC4380 then [NET_IPV4, addr.getByte 3 ^^^ 0xFF, addr.getByte 2 ^^^ 0xFF]
  else if addr.isTor then addr.groupOf NET_TOR 6 4
  else if addr.getByte 15 == 0x20 && addr.getByte 14 == 0x01 && addr.getByte 13 == 0x04 &&
      addr.getByte 12 == 0x70 then
    addr.groupOf (if addr.isLocal then 255 else NET_IPV6) 0 36
  else addr.groupOf (if addr.isLocal then 255 else NET_IPV6) 0 32

end CNetAddr

structure CService extends CNetAddr where
  port : BitVec 16
  deriving DecidableEq

def CService.getKey (addr : CService) : List UInt8 :=
  addr.bytes ++ [UInt8.ofNat (addr.port.toNat / 0x100), UInt8.ofNat (addr.port.toNat % 0x100)]

structure CAddress extends CService where
  nServices : BitVec 64
  nTime : BitVec 32
  /-- In memory only. -/
  nLastTry : BitVec 64
  deriving DecidableEq

def NODE_NETWORK : BitVec 64 := 1

/-- `Init` leaves the address and the port. -/
def CAddress.init (addr : CService) : CAddress where
  toCService := addr
  nServices := NODE_NETWORK
  nTime := 100000000
  nLastTry := 0

/-!
# On disk
-/

def CNetAddr.write (addr : CNetAddr) : List UInt8 := addr.bytes

def CNetAddr.read (word : List UInt8) : Option (CNetAddr × List UInt8) :=
  match readExactly 16 word with
  | none => none
  | some (ip, rest) => some (⟨fun i => ip.getD i.val 0⟩, rest)

theorem CNetAddr.reads_write (addr : CNetAddr) : Reads CNetAddr.read addr.write addr := by
  have hread : Reads (readExactly 16) addr.bytes addr.bytes := by
    have hlen : addr.bytes.length = 16 := List.length_ofFn
    rw [← hlen]
    exact reads_readExactly addr.bytes
  have hip : (fun i : Fin 16 => addr.bytes.getD i.val 0) = addr.ip := by
    funext i
    rw [bytes, List.getD_eq_getElem _ _ (by simp), List.getElem_ofFn]
  intro rest
  simp only [CNetAddr.read, CNetAddr.write, hread rest, hip]

/-- `htons`: the high byte first. -/
def writePort (port : BitVec 16) : List UInt8 :=
  [UInt8.ofNat (port.toNat / 256), UInt8.ofNat (port.toNat % 256)]

def readPort (word : List UInt8) : Option (BitVec 16 × List UInt8) :=
  match word with
  | high :: low :: rest => some (BitVec.ofNat 16 (high.toNat * 256 + low.toNat), rest)
  | _ => none

theorem reads_writePort (port : BitVec 16) : Reads readPort (writePort port) port := by
  intro rest
  have hlt := port.isLt
  have hvalue : (UInt8.ofNat (port.toNat / 256)).toNat * 256 +
      (UInt8.ofNat (port.toNat % 256)).toNat = port.toNat := by
    rw [UInt8.toNat_ofNat', UInt8.toNat_ofNat']
    omega
  simp only [writePort, readPort, List.cons_append, List.nil_append, hvalue, BitVec.ofNat_toNat,
    BitVec.setWidth_eq]

def CService.write (addr : CService) : List UInt8 := addr.toCNetAddr.write ++ writePort addr.port

def CService.read : List UInt8 -> Option (CService × List UInt8) :=
  readThen CNetAddr.read fun addr =>
    readThen readPort fun port => readDone ⟨addr, port⟩

theorem CService.reads_write (addr : CService) : Reads CService.read addr.write addr := by
  have hport : Reads (readThen readPort fun port => readDone (⟨addr.toCNetAddr, port⟩ : CService))
      (writePort addr.port ++ []) addr :=
    reads_readThen (reads_writePort addr.port) (reads_readDone _)
  rw [List.append_nil] at hport
  exact reads_readThen (CNetAddr.reads_write addr.toCNetAddr) hport

/-- `nVersion` is that of the stream. -/
def CAddress.write (nVersion : BitVec 32) (addr : CAddress) : List UInt8 :=
  writeWord 4 nVersion ++ (writeWord 4 addr.nTime ++
    (writeWord 8 addr.nServices ++ (addr.toCService.write ++ [])))

/-- Reading begins with `Init`, so that `nLastTry` is zero. -/
def CAddress.read : List UInt8 -> Option (CAddress × List UInt8) :=
  readThen (readWord 4) fun _ =>
    readThen (readWord 4) fun nTime =>
      readThen (readWord 8) fun nServices =>
        readThen CService.read fun addr =>
          readDone { CAddress.init addr with nTime := nTime, nServices := nServices }

theorem CAddress.reads_write (nVersion : BitVec 32) (addr : CAddress) :
    Reads CAddress.read (addr.write nVersion) { addr with nLastTry := 0 } :=
  reads_readThen (reads_writeWord 4 nVersion)
    (reads_readThen (reads_writeWord 4 addr.nTime)
      (reads_readThen (reads_writeWord 8 addr.nServices)
        (reads_readThen (CService.reads_write addr.toCService) (reads_readDone _))))

end Net
end Hbcur
