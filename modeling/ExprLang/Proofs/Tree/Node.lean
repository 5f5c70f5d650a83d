import ExprLang.Proofs.Printing.Canonical

/-!
# `Proofs.Tree.Node` — what stands anywhere in a syntax tree

Trees of all families are looked at as nodes with parts, so that "at any depth" is one relation
between nodes and not one recursion for each property. What a reader promises of its trees is a
property of single nodes which holds **throughout** a tree.

## Contents
- `Node`, `Node.parts`: the nodes of all families, and what stands directly below each.
- `Node.Within`, `Node.Throughout`: what stands at any depth, and properties of all of it.
- `Node.Outside`, `Node.Unassigned`: what stands outside of blocks, and trees without an assignment
  there.
- `Node.Fit`: a property throughout, and no assignment outside of blocks.
- `Node.WellShaped`: a node that is no diagnostic and no class, and whose bodies are blocks.
- `Node.Gated`: a node without an assignment where none is accepted.
-/

namespace ExprLang

/-- A node of a syntax tree. -/
inductive Node where
  | expr (e : Expr)
  | statement (s : Statement)
  | parameter (p : Parameter)
  | function (f : FunctionDef)
  | type (t : TypeName)
  | pattern (p : Pattern)

namespace Node

/-- The nodes directly below a node. -/
def parts : Node → List Node
  | expr (.ifElse condition truthy falsy) =>
    expr condition :: expr truthy :: falsy.toList.map expr
  | expr (.whileLoop condition body) => [expr condition, expr body]
  | expr (.forLoop subject iterable body) => [pattern subject, expr iterable, expr body]
  | expr (.block statements result) => statements.map statement ++ result.toList.map expr
  | expr (.assign _ subject value) => [expr subject, expr value]
  | expr (.binary _ left right) => [expr left, expr right]
  | expr (.unary _ subject) => [expr subject]
  | expr (.call subject arguments) => expr subject :: arguments.map expr
  | expr (.member subject _) => [expr subject]
  | expr (.index subject key) => [expr subject, expr key]
  | expr (.error _) | expr (.name _) | expr (.int _) | expr (.float _) | expr (.char _)
  | expr (.string _) | expr (.bool _) | expr .null => []
  | statement (.error _) => []
  | statement (.expr e) => [expr e]
  | statement (.classDef _ fields methods) => fields.map parameter ++ methods.map function
  | statement (.function f) => [function f]
  | statement (.letIn p) => [parameter p]
  | statement (.returning value) | statement (.breaking value) | statement (.continuing value) =>
    value.toList.map expr
  | parameter ⟨subject, declared, value⟩ =>
    pattern subject :: (declared.toList.map type ++ value.toList.map expr)
  | function ⟨_, parameters, result, body⟩ =>
    expr body :: (parameters.map parameter ++ result.toList.map type)
  | type _ | pattern _ => []

/-! ## At any depth -/

/-- The node `m` stands in the tree of `n`, at any depth. -/
inductive Within (m : Node) : Node → Prop where
  | self : Within m m
  | part {k n} (hk : k ∈ n.parts) (h : Within m k) : Within m n

/-- All nodes in the tree of `n` have the property `P`. -/
def Throughout (P : Node → Prop) (n : Node) : Prop := ∀ m : Node, m.Within n → P m

variable {P : Node → Prop} {n : Node}

theorem Throughout.root (h : n.Throughout P) : P n := h n .self

theorem Throughout.part (h : n.Throughout P) {k : Node} (hk : k ∈ n.parts) : k.Throughout P :=
  fun m hm => h m (.part hk hm)

/-- **A property holds throughout a tree** if it holds of its root and throughout its parts. -/
theorem Throughout.intro (hroot : P n) (hparts : ∀ k ∈ n.parts, k.Throughout P) :
    n.Throughout P := by
  intro m hm
  cases hm with
  | self => exact hroot
  | part hk h => exact hparts _ hk m h

/-! ## Outside of blocks -/

/-- The node is a block. -/
def IsBlock : Node → Prop
  | expr (.block _ _) => True
  | _ => False

/-- The node is an assignment. -/
def IsAssign : Node → Prop
  | expr (.assign _ _ _) => True
  | _ => False

/-- The node `m` stands in the tree of `n`, and in no block of it. -/
inductive Outside (m : Node) : Node → Prop where
  | self : Outside m m
  | part {k n} (hn : ¬n.IsBlock) (hk : k ∈ n.parts) (h : Outside m k) : Outside m n

/-- No assignment stands in the tree of `n`, except in its blocks. -/
def Unassigned (n : Node) : Prop := ∀ m : Node, m.Outside n → ¬m.IsAssign

/-- **A tree has no assignment** if its root is none and its parts have none. -/
theorem Unassigned.intro (hroot : ¬n.IsAssign) (hparts : ∀ k ∈ n.parts, k.Unassigned) :
    n.Unassigned := by
  intro m hm
  cases hm with
  | self => exact hroot
  | part _ hk h => exact hparts _ hk m h

/-- What stands in a block does not count. -/
theorem unassigned_block (statements : List Statement) (result : Option Expr) :
    (expr (.block statements result)).Unassigned := by
  intro m hm
  cases hm with
  | self => exact id
  | part hn => exact absurd trivial hn

/-- The node has the property `P` throughout, and may stand where no assignment is accepted. -/
structure Fit (P : Node → Prop) (n : Node) : Prop where
  throughout : n.Throughout P
  unassigned : n.Unassigned

/-- **A node is fit** if it has the property and is no assignment, and its parts are fit. -/
theorem Fit.intro (hroot : P n) (hassign : ¬n.IsAssign) (hparts : ∀ k ∈ n.parts, k.Fit P) :
    n.Fit P where
  throughout := .intro hroot fun k hk => (hparts k hk).throughout
  unassigned := .intro hassign fun k hk => (hparts k hk).unassigned

/-! ## What readers promise of single nodes -/

/-- The node stands for no diagnostic and is no class, and its branches and bodies are blocks. -/
def WellShaped : Node → Prop
  | expr (.error _) | statement (.error _) | type (.error _) | pattern (.error _) => False
  | statement (.classDef _ _ _) => False
  | expr (.ifElse _ truthy falsy) => truthy.IsBlock ∧ ∀ e ∈ falsy, e.IsBlock
  | expr (.whileLoop _ body) | expr (.forLoop _ _ body) => body.IsBlock
  | function f => f.body.IsBlock
  | _ => True

/-- The parts of a node that stand where no assignment is accepted: conditions, what a loop goes
    over, operands of prefix operators, arguments, keys, and the values of jumps and of parameters,
    which are also what `let` binds. -/
def guarded : Node → List Expr
  | expr (.ifElse condition _ _) | expr (.whileLoop condition _) => [condition]
  | expr (.forLoop _ iterable _) => [iterable]
  | expr (.unary _ subject) => [subject]
  | expr (.call _ arguments) => arguments
  | expr (.index _ key) => [key]
  | statement (.returning value) | statement (.breaking value) | statement (.continuing value) =>
    value.toList
  | parameter p => p.value.toList
  | _ => []

/-- No assignment stands directly in the node where none is accepted. -/
def Gated (n : Node) : Prop := ∀ e ∈ n.guarded, (expr e).Unassigned

end Node
end ExprLang
