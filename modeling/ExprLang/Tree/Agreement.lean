import ExprLang.Tree.Basic
/-!
# `Tree.Agreement` — trees that mean the same

Two trees agree if they are built alike from the same names, literals, diagnostics and positions.
Floats are compared as numbers, so a tree that holds a NaN does not even agree with itself, while
the two zeros agree.

## Contents
- `Expr.agrees`, `Statement.agrees`, and agreement of lists and of optional parts.
-/
namespace ExprLang

mutual

/-- Two expressions agree. -/
def Expr.agrees : Expr → Expr → Bool
  | .error d, .error d' => d = d'
  | .ifElse c t f, .ifElse c' t' f' => c.agrees c' && t.agrees t' && optionalAgrees f f'
  | .whileLoop c b, .whileLoop c' b' => c.agrees c' && b.agrees b'
  | .forLoop s i b, .forLoop s' i' b' => s = s' && i.agrees i' && b.agrees b'
  | .block ss r, .block ss' r' => bodyAgrees ss ss' && optionalAgrees r r'
  | .assign o s v, .assign o' s' v' => o = o' && s.agrees s' && v.agrees v'
  | .binary o l r, .binary o' l' r' => o = o' && l.agrees l' && r.agrees r'
  | .unary o s, .unary o' s' => o = o' && s.agrees s'
  | .call s as, .call s' as' => s.agrees s' && argumentsAgree as as'
  | .member s n, .member s' n' => s.agrees s' && n = n'
  | .index s k, .index s' k' => s.agrees s' && k.agrees k'
  | .name n, .name n' => n = n'
  | .int v, .int v' => v = v'
  | .float v, .float v' => v.agrees v'
  | .char v, .char v' => v = v'
  | .string v, .string v' => v = v'
  | .bool v, .bool v' => v = v'
  | .null, .null => true
  | _, _ => false

/-- Two optional expressions agree. -/
def optionalAgrees : Option Expr → Option Expr → Bool
  | none, none => true
  | some e, some e' => e.agrees e'
  | _, _ => false

/-- Two argument lists agree. -/
def argumentsAgree : List Expr → List Expr → Bool
  | [], [] => true
  | e :: more, e' :: more' => e.agrees e' && argumentsAgree more more'
  | _, _ => false

/-- Two lists of statements agree. -/
def bodyAgrees : List Statement → List Statement → Bool
  | [], [] => true
  | s :: more, s' :: more' => s.agrees s' && bodyAgrees more more'
  | _, _ => false

/-- Two statements agree. -/
def Statement.agrees : Statement → Statement → Bool
  | .error d, .error d' => d = d'
  | .expr e, .expr e' => e.agrees e'
  | .classDef n fs ms, .classDef n' fs' ms' =>
    n = n' && parametersAgree fs fs' && methodsAgree ms ms'
  | .function f, .function f' => f.agrees f'
  | .letIn p, .letIn p' => p.agrees p'
  | .returning v, .returning v' => optionalAgrees v v'
  | .breaking v, .breaking v' => optionalAgrees v v'
  | .continuing v, .continuing v' => optionalAgrees v v'
  | _, _ => false

/-- Two parameters agree. -/
def Parameter.agrees : Parameter → Parameter → Bool
  | ⟨s, t, v⟩, ⟨s', t', v'⟩ => s = s' && t = t' && optionalAgrees v v'

/-- Two lists of parameters agree. -/
def parametersAgree : List Parameter → List Parameter → Bool
  | [], [] => true
  | p :: more, p' :: more' => p.agrees p' && parametersAgree more more'
  | _, _ => false

/-- Two lists of functions agree. -/
def methodsAgree : List FunctionDef → List FunctionDef → Bool
  | [], [] => true
  | f :: more, f' :: more' => f.agrees f' && methodsAgree more more'
  | _, _ => false

/-- Two functions agree. -/
def FunctionDef.agrees : FunctionDef → FunctionDef → Bool
  | ⟨n, ps, r, b⟩, ⟨n', ps', r', b'⟩ =>
    n = n' && parametersAgree ps ps' && r = r' && b.agrees b'

end

end ExprLang
