import Mathlib.Data.Fintype.Pi
import Shmily.Foundation.ByteArea
import Shmily.Lib.Bitmap

/-! # Frames and the network interface

Numbers in packets are in network order: the code swaps their bytes before it
stores them, lowest byte first. A frame is the bytes handed to `send_packet`.
-/

namespace Shmily.Net

open Foundation Lib

abbrev MacAddr := Fin 6 → Byte
abbrev IpAddr := Fin 4 → Byte

/-- `swap_word`. -/
def swapWord (word : BitVec 16) : BitVec 16 := ((word &&& 0xff) <<< 8) ||| (word >>> 8)

/-- `swap_double_word`. -/
def swapDoubleWord (dw : BitVec 32) : BitVec 32 :=
  ((dw &&& 0xff) <<< 24) ||| ((dw &&& 0xff00) <<< 8) ||| ((dw &&& 0xff0000) >>> 8) |||
    ((dw &&& 0xff000000) >>> 24)

/-- An array of the source as an area of bytes. -/
def bytesOf {n : Nat} (array : Fin n → Byte) : ByteArea := fun k =>
  if hk : k < n then array ⟨k, hk⟩ else 0

/-- The array of `n` bytes that starts at an offset. -/
def arrayAt (area : ByteArea) (offset n : Nat) : Fin n → Byte := fun i => area (offset + i)

/-- A field of two bytes. -/
def wordAt (area : ByteArea) (offset : Nat) : BitVec 16 := BitVec.ofNat 16 (area.getLE 2 offset)

/-- A field of four bytes. -/
def doubleWordAt (area : ByteArea) (offset : Nat) : BitVec 32 :=
  BitVec.ofNat 32 (area.getLE 4 offset)

def putArray {n : Nat} (area : ByteArea) (offset : Nat) (array : Fin n → Byte) : ByteArea :=
  area.copyIn offset (bytesOf array) 0 n

def putWord (area : ByteArea) (offset : Nat) (word : BitVec 16) : ByteArea :=
  area.putLE 2 offset word.toNat

def putDoubleWord (area : ByteArea) (offset : Nat) (dw : BitVec 32) : ByteArea :=
  area.putLE 4 offset dw.toNat

/-- What the driver is given. -/
structure Packet where
  size : Nat
  data : ByteArea

def ethHeaderSize : Nat := 14
def ipHeaderSize : Nat := 20

def nextIsArp : BitVec 16 := 0x0806
def nextIsIp : BitVec 16 := 0x0800

/-- The loop of `generate_checksum` over whole words. -/
def sumWords (pkt : ByteArea) : Nat → Nat → BitVec 32 → BitVec 32
  | 0, _, checksum => checksum
  | words + 1, offset, checksum =>
      sumWords pkt words (offset + 2) (checksum + (wordAt pkt offset).setWidth 32)

/-- `generate_checksum`. -/
def generateChecksum (pkt : ByteArea) (len : Nat) : BitVec 16 :=
  let checksum := sumWords pkt (len / 2) 0 0
  let checksum :=
    if len % 2 = 1 then checksum + (wordAt pkt (len / 2 * 2)).setWidth 32 else checksum
  let checksum := (checksum >>> 16) + (checksum &&& 0xffff)
  let checksum := checksum + (checksum >>> 16)
  (~~~checksum).setWidth 16

/-- `EthernetFactory::format_packet`. -/
def formatEthernet (data : ByteArea) (macAddr targetMacAddr : MacAddr) (nextProto : BitVec 16) :
    ByteArea :=
  let data := putWord data 12 (swapWord nextProto)
  let data := putArray data 0 targetMacAddr
  putArray data 6 macAddr

/-- `IPv4Factory::format_packet`, on the bytes from the header on. -/
def formatIpv4 (data : ByteArea) (ipAddr targetIp : IpAddr) (nextProto : Byte)
    (totalLen : BitVec 16) : ByteArea :=
  let data := Function.update data 0 0x45
  let data := Function.update data 1 0
  let data := putWord data 2 (swapWord totalLen)
  let data := putWord data 4 (swapWord 0x4455)
  let data := putWord data 6 (swapWord 0x4000)
  let data := Function.update data 8 64
  let data := Function.update data 9 nextProto
  let data := putWord data 10 0
  let data := putArray data 12 ipAddr
  let data := putArray data 16 targetIp
  putWord data 10 (generateChecksum data 20)

/-- `mac_map_ip`. -/
structure MacMapIp where
  macAddr : MacAddr
  ipAddr : IpAddr
  ref : BitVec 32

structure ArpCacheTable where
  items : Fin 5 → MacMapIp

namespace ArpCacheTable

def locateIpAddr (table : ArpCacheTable) (ipAddr : IpAddr) : Option (Fin 5) :=
  (List.finRange 5).find? fun i => (table.items i).ipAddr = ipAddr

def locateMacAddr (table : ArpCacheTable) (macAddr : MacAddr) : Option (Fin 5) :=
  (List.finRange 5).find? fun i => (table.items i).macAddr = macAddr

/-- `items[i].ref++`. -/
def touch (table : ArpCacheTable) (i : Fin 5) : ArpCacheTable where
  items := Function.update table.items i { table.items i with ref := (table.items i).ref + 1 }

/-- The result is null if the address is not in the table. -/
def getMacAddr (table : ArpCacheTable) (ipAddr : IpAddr) : Option MacAddr × ArpCacheTable :=
  match table.locateIpAddr ipAddr with
  | some i => (some (table.items i).macAddr, table.touch i)
  | none => (none, table)

def getIpAddr (table : ArpCacheTable) (macAddr : MacAddr) : Option IpAddr × ArpCacheTable :=
  match table.locateMacAddr macAddr with
  | some i => (some (table.items i).ipAddr, table.touch i)
  | none => (none, table)

def setItem (table : ArpCacheTable) (slot : Fin 5) (macAddr : MacAddr) (ipAddr : IpAddr) :
    ArpCacheTable where
  items := Function.update table.items slot
    { macAddr := macAddr, ipAddr := ipAddr, ref := (table.items slot).ref }

/-- Only the MAC address is looked at. -/
def isFreeSlot (table : ArpCacheTable) (slot : Fin 5) : Bool := (table.items slot).macAddr = 0

def getFreeSlot (table : ArpCacheTable) : Option (Fin 5) :=
  (List.finRange 5).find? fun i => table.isFreeSlot i

/-- `less_use_cnt` is an `int` and `ref` is unsigned, so that they are compared unsigned. -/
def removeLessUseItem (table : ArpCacheTable) : Fin 5 :=
  [1, 2, 3, 4].foldl (fun idx i => if (table.items i).ref < (table.items idx).ref then i else idx) 0

def isExists (table : ArpCacheTable) (macAddr : MacAddr) (ipAddr : IpAddr) :
    Bool × ArpCacheTable :=
  let (found, table) := table.getIpAddr macAddr
  (found = some ipAddr, table)

def append (table : ArpCacheTable) (macAddr : MacAddr) (ipAddr : IpAddr) : ArpCacheTable :=
  let (known, table) := table.isExists macAddr ipAddr
  if known then table
  else table.setItem (table.getFreeSlot.getD table.removeLessUseItem) macAddr ipAddr

end ArpCacheTable

/-- `NetworkInterface`; of the routes only the default gateway is used. -/
structure NetworkInterface where
  macAddr : MacAddr
  ipAddr : IpAddr
  arpTbl : ArpCacheTable
  defaultGateway : IpAddr

namespace NetworkInterface

def getDefaultGatewayMac (iface : NetworkInterface) : Option MacAddr × NetworkInterface :=
  let (mac, table) := iface.arpTbl.getMacAddr iface.defaultGateway
  (mac, { iface with arpTbl := table })

/-- The gateway is not set. -/
def configIface (iface : NetworkInterface) (ipUint : BitVec 32) : NetworkInterface :=
  { iface with ipAddr := fun i => (ipUint >>> (24 - 8 * i.val)).setWidth 8 }

end NetworkInterface

def arpPacketSize : Nat := 28
def reqOpcode : BitVec 16 := 0x0001
def rspOpcode : BitVec 16 := 0x0002

/-- `ArpFactory::format_reply_packet`. -/
def formatArpReply (data : ByteArea) (macAddr : MacAddr) (ipAddr : IpAddr) (resMacAddr : MacAddr)
    (reqIp : IpAddr) : ByteArea :=
  let data := putWord data 0 (swapWord 0x0001)
  let data := putWord data 2 (swapWord 0x0800)
  let data := Function.update data 4 6
  let data := Function.update data 5 4
  let data := putWord data 6 (swapWord rspOpcode)
  let data := putArray data 8 macAddr
  let data := putArray data 18 resMacAddr
  let data := putArray data 14 ipAddr
  putArray data 24 reqIp

/-- `ArpFactory::reply`. Every byte of the new memory is written. -/
def arpReply (macAddr : MacAddr) (ipAddr : IpAddr) (srcMacAddr resMacAddr : MacAddr)
    (reqIp : IpAddr) : Packet where
  size := ethHeaderSize + arpPacketSize
  data := (formatEthernet .zeros macAddr srcMacAddr nextIsArp).copyIn ethHeaderSize
    (formatArpReply .zeros macAddr ipAddr resMacAddr reqIp) 0 arpPacketSize

end Shmily.Net
