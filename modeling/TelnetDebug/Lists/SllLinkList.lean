import TelnetDebug.Library.Linked
import Mathlib.Data.Int.Init

/-! The list with a header of two pointers, as a library of the program uses it
through pointers to nodes. A loop over the nodes takes as many turns as it is
given fuel. -/
namespace TelnetDebug.Sll

open Linked

variable {α : Type} [DecidableEq α]

def retSuccess : Int := 1
def retError : Int := 0

/-- The header of a list and the memory its nodes are in. -/
structure SllLinkList (α : Type) where
  head : Option α
  tail : Option α
  heap : Heap α

/-- The caller has the node ready in memory. -/
def SllLinkList.provide (list : SllLinkList α) (node : α) (link : Option α) : SllLinkList α :=
  { list with heap := list.heap.provide node link }

/-- What a list function returns and the list it leaves. -/
abbrev ListResult (α : Type) := Int × SllLinkList α

def insertAtHead (list : SllLinkList α) (node : Option α) : Except Fault (ListResult α) :=
  match node with
  | none => .error .aborted
  | some _ => do
      let heap ← list.heap.setLink list.head node
      return (retSuccess, ⟨node, if list.tail.isNone then node else list.tail, heap⟩)

/-- Follow at most `steps` links. -/
def walk (heap : Heap α) : Nat → Option α → Except Fault (Option α)
  | 0, node => return node
  | _ + 1, none => return none
  | steps + 1, some a => do walk heap steps (← heap.link (some a))

def insertAtIndex (list : SllLinkList α) (node : Option α) (index : Int) : Except Fault (ListResult α) :=
  match list.head with
  | none => .error .aborted
  | some _ => do
      match ← walk list.heap (index - 1).toNat list.head with
      | none => return (retSuccess, list)
      | some previous =>
          let next ← list.heap.link (some previous)
          let heap ← list.heap.setLink next node
          let heap ← heap.setLink node (some previous)
          return (retSuccess, { list with heap := heap })

/-- The node at which the chain of links ends. -/
def lastNode (heap : Heap α) : Nat → Option α → Except Fault (Option α)
  | 0, _ => .error .endless
  | fuel + 1, node => do
      match ← heap.link node with
      | none => return node
      | some next => lastNode heap fuel (some next)

def insertAtTail (fuel : Nat) (list : SllLinkList α) (node : Option α) : Except Fault (ListResult α) :=
  match list.head with
  | none => do
      let heap ← list.heap.setLink none node
      return (retSuccess, ⟨node, node, heap⟩)
  | some _ => do
      let last ← lastNode list.heap fuel list.head
      let heap ← list.heap.setLink node last
      let heap ← heap.setLink none node
      return (retSuccess, { list with heap := heap })

def getHead (list : SllLinkList α) : Option α := list.head

def getTail (fuel : Nat) (list : SllLinkList α) : Except Fault (Option α) :=
  match list.head with
  | none => return none
  | some _ => lastNode list.heap fuel list.head

/-- Follow `steps` links, or as many as there are. -/
def advance (heap : Heap α) : Nat → Option α → Except Fault (Option α)
  | 0, node => return node
  | steps + 1, node => do
      match ← heap.link node with
      | none => return node
      | some next => advance heap steps (some next)

def getIndex (list : SllLinkList α) (index : Int) : Except Fault (Option α) := do
  if index = 1 then return list.head
  else advance list.heap index.toNat (← list.heap.link list.head)

def headRemove (list : SllLinkList α) : Except Fault (ListResult α) :=
  match list.head with
  | none => .error .aborted
  | some node => do
      let next ← list.heap.link (some node)
      let heap ← list.heap.free (some node)
      return (retSuccess, { list with head := next, heap := heap })

/-- The node at which the chain of links ends, and the one in front of it. -/
def lastTwo (heap : Heap α) : Nat → Option α → Option α → Except Fault (Option α × Option α)
  | 0, _, _ => .error .endless
  | fuel + 1, preNode, node => do
      match ← heap.link node with
      | none => return (preNode, node)
      | some next => lastTwo heap fuel node (some next)

def tailRemove (fuel : Nat) (list : SllLinkList α) : Except Fault (ListResult α) :=
  match list.head with
  | none => .error .aborted
  | some _ => do
      let (preNode, node) ← lastTwo list.heap fuel none list.head
      let heap ← list.heap.setLink none preNode
      let heap ← heap.free node
      return (retSuccess, { list with heap := heap })

/-- The loop of `sll_link_list_node_remove`, from the node `pNode` on. -/
def unlink (list : SllLinkList α) (node : Option α) : Nat → Option α → Except Fault (ListResult α)
  | 0, _ => .error .endless
  | _ + 1, none => return (retError, list)
  | fuel + 1, some pNode => do
      let next ← list.heap.link (some pNode)
      if next = node then
        let heap ← list.heap.setLink (← list.heap.link node) (some pNode)
        let heap ← heap.free node
        return (retSuccess, { list with heap := heap })
      else unlink list node fuel next

def nodeRemove (fuel : Nat) (list : SllLinkList α) (node : Option α) : Except Fault (ListResult α) :=
  match list.head with
  | none => .error .aborted
  | some _ => do
      if node = list.head then
        let (_, list) ← headRemove list
        return (retSuccess, list)
      else if node = (← getTail fuel list) then
        let (_, list) ← tailRemove fuel list
        return (retSuccess, list)
      else unlink list node fuel list.head

/-- What is given back to the allocator. -/
inductive Freed (α : Type) where
  | node (a : α)
  | header
deriving DecidableEq

/-- The loop of `sll_link_list_destory`. Every turn ends with a null pointer. -/
def destoryLoop : Nat → Heap α → Option α → Except Fault (List (Freed α) × Heap α)
  | 0, _, _ => .error .endless
  | _ + 1, heap, none => return ([], heap)
  | fuel + 1, heap, some a => do
      let node ← heap.link (some a)
      let heap ← heap.free node
      let (freed, heap) ← destoryLoop fuel heap none
      return (node.toList.map .node ++ freed, heap)

/-- What is freed, in order, and the memory that is left. -/
def destory (fuel : Nat) (list : SllLinkList α) : Except Fault (List (Freed α) × Heap α) :=
  match list.head with
  | none => return ([.header], list.heap)
  | some _ => do
      let (freed, heap) ← destoryLoop fuel list.heap list.head
      return (freed ++ [.header], heap)

/-- The list after `sll_link_list_init` or a caller has set both pointers. -/
def SllLinkList.empty (heap : Heap α) : SllLinkList α := ⟨none, none, heap⟩

/-- The nodes from 1 to `n`, linked in this order, and one more in memory. -/
def SllLinkList.numbered (n : Nat) : SllLinkList Nat where
  head := if n = 0 then none else some 1
  tail := if n = 0 then none else some n
  heap a :=
    if 0 < a ∧ a < n then some (some (a + 1))
    else if a = n ∨ a = n + 1 then some none
    else none

end TelnetDebug.Sll
