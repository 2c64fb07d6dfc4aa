import TelnetDebug.Library.Buffer
import TelnetDebug.Library.Strtok
import TelnetDebug.Library.Strtol
import TelnetDebug.Library.Guarded
import Mathlib.Data.UInt

/-! The list of the loaded objects, read from `/proc/<pid>/maps`. Every line is
taken apart into a record that is used again for the next line, and the record
of an object is either added to the list or widens the last node. Memory can
always be allocated. -/
namespace TelnetDebug

open CBuffer Strtok Strtol

/-- A token that is missing is read, or `pathname` is left. -/
inductive MapsFault where
  | nullToken
  | read (index : Nat)
  | write (index : Nat)
deriving DecidableEq

/-- Of `pathname` the string in it is kept, which `strcpy` has stored. -/
structure LdMaps where
  addrStart : UInt64
  addrEnd : UInt64
  permission : UInt32
  offset : Int64
  deviceMajor : UInt32
  deviceMinor : UInt32
  inode : UInt64
  pathname : List UInt8
  pathnameSz : UInt64
  filetype : UInt32
deriving DecidableEq

def LdMaps.cleared : LdMaps := ⟨0, 0, 0, 0, 0, 0, 0, [], 0, 0⟩

def pathnameLen : Nat := 128

def needToken : Option (List UInt8) → Except MapsFault (List UInt8)
  | some token => .ok token
  | none => .error .nullToken

def permissionBit (c : UInt8) : UInt32 :=
  if c = 0x72 then 0x1
  else if c = 0x77 then 0x4
  else if c = 0x78 then 0x2
  else if c = 0x70 then 0x8
  else if c = 0x73 then 0x10
  else 0

/-- The characters are taken from the last to the first. -/
def permissionOf (token : List UInt8) : UInt32 :=
  token.foldr (fun c permission => permission ||| permissionBit c) 0

/-- The `(int)strtol` of a device number, stored in an `unsigned int`. -/
def deviceOf (token : List UInt8) : UInt32 := (Int32.ofInt (strtolBase 10 token)).toUInt32

/-- The part of a token that starts at a character is copied to the front of the
array, with the length it has. -/
def storeFrom (c : UInt8) (token : List UInt8) (pathname : Buffer UInt8 pathnameLen) :
    Except MapsFault (Option Nat × Buffer UInt8 pathnameLen) :=
  match token.idxOf? c with
  | some i => do
      let pathname ← (pathname.copy (token.drop i)).mapError .write
      return (some (token.drop i).length, pathname)
  | none => return (none, pathname)

/-- The name in the rest of a line, and its length where it has a slash. -/
def nameOf (token : Option (List UInt8)) : Except MapsFault (Option Nat × List UInt8) := do
  let blank : Buffer UInt8 pathnameLen := .const _ 0
  let (size, pathname) ← match token with
    | some token => do
        let (size, pathname) ← storeFrom 0x2f token blank
        let (_, pathname) ← storeFrom 0x5b token pathname
        pure (size, pathname)
    | none => pure (none, blank)
  let name ← pathname.str.mapError .read
  return (size, name)

def ldMapsParse (buf : List UInt8) (map : LdMaps) : Except MapsFault LdMaps := do
  let (token, left) := strtok [0x2d] buf
  let addrStart ← needToken token
  let (token, left) := strtok [0x20] left
  let addrEnd ← needToken token
  let (token, left) := strtok [0x20] left
  let permission ← needToken token
  let (token, left) := strtok [0x20] left
  let offset ← needToken token
  let (token, left) := strtok [0x3a] left
  let deviceMajor ← needToken token
  let (token, left) := strtok [0x20] left
  let deviceMinor ← needToken token
  let (token, left) := strtok [0x20] left
  let inode ← needToken token
  let (token, _) := strtok [0x0a] left
  let (size, name) ← nameOf token
  return { map with
    addrStart := strtoul 16 addrStart
    addrEnd := strtoul 16 addrEnd
    permission := permissionOf permission
    offset := (strtoul 16 offset).toInt64
    deviceMajor := deviceOf deviceMajor
    deviceMinor := deviceOf deviceMinor
    inode := strtoul 10 inode
    pathname := name
    pathnameSz := (size.map UInt64.ofNat).getD map.pathnameSz }

/-- The walk to the last node, and the node linked behind it. -/
def sllLinkListInsertAtTail {α : Type} : List α → α → List α
  | [], node => [node]
  | [tail], node => [tail, node]
  | first :: next :: rest, node => first :: sllLinkListInsertAtTail (next :: rest) node

def sllLinkListGetTail {α : Type} : List α → Option α
  | [] => none
  | [tail] => some tail
  | _ :: next :: rest => sllLinkListGetTail (next :: rest)

/-- The nodes hold copies of the records, in the order of the chain. -/
structure SoNameList where
  nodes : List LdMaps
  num : UInt32
deriving DecidableEq

def debugInitList : SoNameList := ⟨[], 0⟩

def soNameAddNode (list : SoNameList) (map : LdMaps) : SoNameList :=
  ⟨sllLinkListInsertAtTail list.nodes map, list.num + 1⟩

/-- The bounds of the last node after a line of the same name. -/
def widen (node map : LdMaps) : LdMaps :=
  if node.addrStart < map.addrStart then
    if node.addrEnd < map.addrEnd then { node with addrEnd := map.addrEnd } else node
  else if node.addrEnd < map.addrEnd then
    { node with addrStart := map.addrStart, addrEnd := map.addrEnd }
  else { node with addrStart := map.addrStart }

/-- The record of an accepted line goes into the list. -/
def SoNameList.take (list : SoNameList) (map : LdMaps) : SoNameList :=
  if list.num > 0 then
    match sllLinkListGetTail list.nodes with
    | some node =>
        if node.pathname = map.pathname then
          { list with nodes := list.nodes.dropLast ++ [widen node map] }
        else soNameAddNode list map
    | none => soNameAddNode list map
  else soNameAddNode list map

/-- `.so` -/
def soSuffix : List UInt8 := [0x2e, 0x73, 0x6f]

/-- The name has no bracket in it, and `.so` or the name of the executable. -/
def Accepted (self name : List UInt8) : Prop :=
  0x5b ∉ name ∧ (soSuffix <:+: name ∨ self <:+: name)

instance (self name : List UInt8) : Decidable (Accepted self name) :=
  inferInstanceAs (Decidable (_ ∧ _))

/-- One round of the loop: the record and the list before and after it. -/
def mapsStep (self : List UInt8) (s : LdMaps × SoNameList) (line : List UInt8) :
    Except MapsFault (LdMaps × SoNameList) := do
  let map ← ldMapsParse (text line) s.1
  return (map, if Accepted self map.pathname then s.2.take map else s.2)

/-- The size of the buffer for a line, without the terminator. -/
def mapsRoom : Nat := 4095

/-- `maps` is the text of the file, or none when it cannot be opened, and `self`
the path that `readlink` has stored. -/
def getMapsSoList (self : List UInt8) (gSoNameList : Option SoNameList)
    (maps : Option (List UInt8)) : Except MapsFault (UInt32 × Option SoNameList) :=
  match maps with
  | none => return (-1, gSoNameList)
  | some maps => do
      let (_, list) ← Guarded.run (mapsStep self) (.cleared, debugInitList)
        (fgetsAll 0x0a mapsRoom [] maps)
      return (1, some list)

end TelnetDebug
