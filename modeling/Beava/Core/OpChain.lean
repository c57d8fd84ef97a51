/-
Operator lists of a derivation: their schemas and their compiled chains.

Expressions are kept as their source text in an operator list.  What the chain
needs of them (parsing, the fields they mention, type inference, evaluation) is
a parameter, and so are the few conversions of the standard library that depend
on the binary format of numbers.
-/

import Beava.Core.Row

namespace Beava.Core

structure AggSpec where
  op : String
  params : Json
  deriving DecidableEq

inductive OpNode where
  | filter (expr : String)
  | select (fields : List String)
  | drop (fields : List String)
  | rename (mapping : StrMap String)
  | withColumns (exprs : StrMap String)
  | map (exprs : StrMap String)
  | cast (typeMap : StrMap String)
  | fillna (defaults : StrMap Json)
  | groupBy (keys : List String) (agg : StrMap AggSpec)
  deriving DecidableEq

namespace OpNode

def isGroupBy : OpNode → Bool
  | .groupBy .. => true
  | _ => false

end OpNode

structure ParseError where
  col : Nat
  reason : String
  deriving DecidableEq, Repr

inductive InferredType where
  | known (fieldType : FieldType)
  | nullLiteral
  deriving DecidableEq, Repr

inductive PropagationError where
  | fieldMissing (opIndex : Nat) (field : String)
  | typeMismatch (opIndex : Nat) (reason : String)
  | renameCollision (opIndex : Nat) (new : String)
  | invalidExpr (opIndex : Nat) (parseError : ParseError)
  | unsupportedOp (opIndex : Nat) (op : String)
  deriving DecidableEq, Repr

namespace PropagationError

def opIndex : PropagationError → Nat
  | .fieldMissing opIndex _ => opIndex
  | .typeMismatch opIndex _ => opIndex
  | .renameCollision opIndex _ => opIndex
  | .invalidExpr opIndex _ => opIndex
  | .unsupportedOp opIndex _ => opIndex

end PropagationError

/-- What the registry and the apply path take from the expression language,
from the hash library and from the standard library. -/
structure Env (Expr : Type) where
  parse : String → Except ParseError Expr
  referencedFields : Expr → List String
  /-- `infer_expr_type_inner`: the reasons of the type mismatches it records and
  the type, if there is one. -/
  inferExprType : Expr → Schema → List String × Option InferredType
  eval : Expr → Row → Value
  /-- The `cast` builtin on a value and the name of the target type. -/
  castBuiltin : Value → String → Value
  /-- `{:?}` of a string. -/
  debugStr : String → String
  /-- `{}` of a number. -/
  displayF64 : F64 → String
  /-- `{:?}` of a number. -/
  debugF64 : F64 → String
  /-- `str::parse::<f64>`. -/
  parseF64 : String → Option F64
  f64OfInt : Int → F64
  /-- The `fxhash` of the group keys in declaration order. -/
  clusterSignature : List String → UInt64

variable {Expr : Type} (env : Env Expr)

/-! ### Schema propagation -/

abbrev Propagated := Schema × List PropagationError

def checkReferencedFields (opIndex : Nat) (ast : Expr) (schema : Schema) :
    List PropagationError :=
  (env.referencedFields ast).filterMap fun field =>
    if schema.fields.contains field then none else some (.fieldMissing opIndex field)

def applyFilterSchema (opIndex : Nat) (exprSrc : String) (schema : Schema) :
    List PropagationError :=
  match env.parse exprSrc with
  | .error parseError => [.invalidExpr opIndex parseError]
  | .ok ast =>
      checkReferencedFields env opIndex ast schema ++
        (env.inferExprType ast schema).1.map (.typeMismatch opIndex)

def selectField (opIndex : Nat) (current : Schema) (state : Propagated) (field : String) :
    Propagated :=
  match current.fields[field]? with
  | some fieldType =>
      ({ fields := state.1.fields.insert field fieldType
         optionalFields :=
           if current.optionalFields.contains field then state.1.optionalFields ++ [field]
           else state.1.optionalFields },
       state.2)
  | none => (state.1,state.2 ++ [.fieldMissing opIndex field])

def applySelectSchema (opIndex : Nat) (fields : List String) (current : Schema) : Propagated :=
  fields.foldl (selectField opIndex current) (Schema.new,[])

def dropField (opIndex : Nat) (state : Propagated) (field : String) : Propagated :=
  if state.1.fields.contains field then
    ({ fields := state.1.fields.erase field
       optionalFields := state.1.optionalFields.filter (· ≠ field) },
     state.2)
  else (state.1,state.2 ++ [.fieldMissing opIndex field])

def applyDropSchema (opIndex : Nat) (fields : List String) (current : Schema) : Propagated :=
  fields.foldl (dropField opIndex) (current,[])

def checkRename (opIndex : Nat) (mapping : StrMap String) (current : Schema)
    (entry : String × String) : List PropagationError :=
  (if current.fields.contains entry.1 then [] else [.fieldMissing opIndex entry.1]) ++
  (if current.fields.contains entry.2 && !mapping.contains entry.2 then
    [.renameCollision opIndex entry.2]
   else [])

def renameField (mapping : StrMap String) (current : Schema) (schema : Schema)
    (entry : String × FieldType) : Schema :=
  let name := mapping.getD entry.1 entry.1
  { fields := schema.fields.insert name entry.2
    optionalFields :=
      if current.optionalFields.contains entry.1 then schema.optionalFields ++ [name]
      else schema.optionalFields }

def applyRenameSchema (opIndex : Nat) (mapping : StrMap String) (current : Schema) : Propagated :=
  (current.fields.toList.foldl (renameField mapping current) Schema.new,
   mapping.toList.flatMap (checkRename opIndex mapping current))

def addColumn (opIndex : Nat) (state : Propagated) (entry : String × String) : Propagated :=
  match env.parse entry.2 with
  | .error parseError => (state.1,state.2 ++ [.invalidExpr opIndex parseError])
  | .ok ast =>
      let inferred := env.inferExprType ast state.1
      let errors := state.2 ++ checkReferencedFields env opIndex ast state.1 ++
        inferred.1.map (.typeMismatch opIndex)
      match inferred.2 with
      | some (.known fieldType) =>
          ({ fields := state.1.fields.insert entry.1 fieldType
             optionalFields := state.1.optionalFields.filter (· ≠ entry.1) },errors)
      | some .nullLiteral =>
          -- A column that is only `null` has no type of its own.
          ({ state.1 with fields := state.1.fields.insert entry.1 .str },errors)
      | none => (state.1,errors)

def applyWithColumnsSchema (opIndex : Nat) (exprs : StrMap String) (current : Schema) :
    Propagated :=
  exprs.toList.foldl (addColumn env opIndex) (current,[])

def parseCastTarget (target : String) : Option FieldType :=
  if target = "str" then some .str
  else if target = "int" then some .i64
  else if target = "float" then some .f64
  else if target = "bool" then some .bool
  else none

def isCastLegal (source target : FieldType) : Bool :=
  source ≠ .bytes && (target = .str || target = .i64 || target = .f64 || target = .bool)

def castField (opIndex : Nat) (state : Propagated) (entry : String × String) : Propagated :=
  match state.1.fields[entry.1]? with
  | none => (state.1,state.2 ++ [.fieldMissing opIndex entry.1])
  | some sourceType =>
      match parseCastTarget entry.2 with
      | none =>
          (state.1,state.2 ++ [.typeMismatch opIndex
            ("unknown cast target type " ++ env.debugStr entry.2 ++
              "; must be one of: str, int, float, bool")])
      | some targetType =>
          if isCastLegal sourceType targetType then
            ({ state.1 with fields := state.1.fields.insert entry.1 targetType },state.2)
          else
            (state.1,state.2 ++ [.typeMismatch opIndex
              ("cannot cast field " ++ env.debugStr entry.1 ++ " from " ++ sourceType.debug ++
                " to " ++ targetType.debug ++ ": Bytes type cannot be cast")])

def applyCastSchema (opIndex : Nat) (typeMap : StrMap String) (current : Schema) : Propagated :=
  typeMap.toList.foldl (castField env opIndex) (current,[])

def fillField (opIndex : Nat) (state : Propagated) (entry : String × Json) : Propagated :=
  if state.1.fields.contains entry.1 then
    ({ state.1 with optionalFields := state.1.optionalFields.filter (· ≠ entry.1) },state.2)
  else (state.1,state.2 ++ [.fieldMissing opIndex entry.1])

def applyFillnaSchema (opIndex : Nat) (defaults : StrMap Json) (current : Schema) : Propagated :=
  defaults.toList.foldl (fillField opIndex) (current,[])

def propagateOp (opIndex : Nat) (op : OpNode) (current : Schema) : Propagated :=
  match op with
  | .filter expr => (current,applyFilterSchema env opIndex expr current)
  | .select fields => applySelectSchema opIndex fields current
  | .drop fields => applyDropSchema opIndex fields current
  | .rename mapping => applyRenameSchema opIndex mapping current
  | .withColumns exprs => applyWithColumnsSchema env opIndex exprs current
  | .map exprs => applyWithColumnsSchema env opIndex exprs current
  | .cast typeMap => applyCastSchema env opIndex typeMap current
  | .fillna defaults => applyFillnaSchema opIndex defaults current
  | .groupBy .. => (current,[.unsupportedOp opIndex "group_by"])

def propagateFrom : Nat → List OpNode → Schema → Propagated
  | _, [], current => (current,[])
  | opIndex, op :: rest, current =>
      let here := propagateOp env opIndex op current
      let later := propagateFrom (opIndex + 1) rest here.1
      (later.1,here.2 ++ later.2)

/-- `propagate_schema`, without the list of schemas between the operators. -/
def propagateSchema (input : Schema) (ops : List OpNode) :
    Except (List PropagationError) Schema :=
  let result := propagateFrom env 0 ops input
  if result.2.isEmpty then .ok result.1 else .error result.2

/-! ### Compiled chains -/

inductive CastTarget where
  | str
  | int
  | float
  | bool
  deriving DecidableEq, Repr

namespace CastTarget

def asValueStr : CastTarget → String
  | .str => "str"
  | .int => "int"
  | .float => "float"
  | .bool => "bool"

end CastTarget

def castTargetFromStr (target : String) : Option CastTarget :=
  if target = "str" then some .str
  else if target = "int" then some .int
  else if target = "float" then some .float
  else if target = "bool" then some .bool
  else none

inductive CompiledOp (Expr : Type) where
  | filter (ast : Expr)
  | select (fields : List String)
  | drop (fields : List String)
  | rename (mapping : StrMap String)
  | withColumns (exprs : List (String × Expr))
  | cast (entries : List (String × CastTarget))
  | fillna (defaults : List (String × Value))

structure OpChain (Expr : Type) where
  ops : List (CompiledOp Expr)

/-- `json_to_value`: arrays and objects are not scalars. -/
def jsonToValue (content : Json) : Value :=
  match content with
  | .bool flag => .bool flag
  | .number _ =>
      match content.asI64 with
      | some number => .i64 number
      | none =>
          match content.asF64 env.f64OfInt with
          | some number => .f64 number
          | none => .null
  | .string text => .str text
  | _ => .null

def parseAt (opIndex : Nat) (exprSrc : String) : Except (List PropagationError) Expr :=
  match env.parse exprSrc with
  | .ok ast => .ok ast
  | .error parseError => .error [.invalidExpr opIndex parseError]

def compileColumns (opIndex : Nat) :
    List (String × String) → Except (List PropagationError) (List (String × Expr))
  | [] => .ok []
  | (name,exprSrc) :: rest => do
      let ast ← parseAt env opIndex exprSrc
      let others ← compileColumns opIndex rest
      return (name,ast) :: others

/-- `none` for `group_by`, which has no compiled form. -/
def compileOp (opIndex : Nat) (op : OpNode) :
    Except (List PropagationError) (Option (CompiledOp Expr)) :=
  match op with
  | .filter exprSrc => do
      let ast ← parseAt env opIndex exprSrc
      return some (.filter ast)
  | .select fields => .ok (some (.select fields))
  | .drop fields => .ok (some (.drop fields))
  | .rename mapping => .ok (some (.rename mapping))
  | .withColumns exprs => do
      let columns ← compileColumns env opIndex exprs.toList
      return some (.withColumns columns)
  | .map exprs => do
      let columns ← compileColumns env opIndex exprs.toList
      return some (.withColumns columns)
  | .cast typeMap =>
      .ok (some (.cast (typeMap.toList.filterMap fun entry =>
        (castTargetFromStr entry.2).map fun target => (entry.1,target))))
  | .fillna defaults =>
      .ok (some (.fillna (defaults.toList.map fun entry => (entry.1,jsonToValue env entry.2))))
  | .groupBy .. => .ok none

def compileOps : Nat → List OpNode → Except (List PropagationError) (List (CompiledOp Expr))
  | _, [] => .ok []
  | opIndex, op :: rest => do
      let compiled ← compileOp env opIndex op
      let others ← compileOps (opIndex + 1) rest
      return compiled.toList ++ others

def OpChain.compile (inputSchema : Schema) (ops : List OpNode) :
    Except (List PropagationError) (OpChain Expr × Schema) := do
  let finalSchema ← propagateSchema env inputSchema ops
  let compiled ← compileOps env 0 ops
  return (⟨compiled⟩,finalSchema)

def selectColumn (state : Row × Row) (field : String) : Row × Row :=
  match state.1.get field with
  | some value => (state.1.withoutField field,state.2.withField field value)
  | none => state

def takeRenamed (state : Row × List (String × Value)) (entry : String × String) :
    Row × List (String × Value) :=
  match state.1.get entry.1 with
  | some value => (state.1.withoutField entry.1,state.2 ++ [(entry.2,value)])
  | none => state

def setColumn (row : Row) (entry : String × Expr) : Row :=
  row.withField entry.1 (env.eval entry.2 row)

def castColumn (row : Row) (entry : String × CastTarget) : Row :=
  match row.get entry.1 with
  | some value => row.withField entry.1 (env.castBuiltin value entry.2.asValueStr)
  | none => row

def fillColumn (row : Row) (entry : String × Value) : Row :=
  match row.get entry.1 with
  | some value => if value.isNull then row.withField entry.1 entry.2 else row
  | none => row

def CompiledOp.apply (op : CompiledOp Expr) (row : Row) : Option Row :=
  match op with
  | .filter ast => if (env.eval ast row).isTrue then some row else none
  | .select fields => some (fields.foldl selectColumn (row,Row.new)).2
  | .drop fields => some (fields.foldl Row.withoutField row)
  | .rename mapping =>
      let taken := mapping.toList.foldl takeRenamed (row,[])
      some (taken.2.foldl (fun current entry => current.withField entry.1 entry.2) taken.1)
  | .withColumns exprs => some (exprs.foldl (setColumn env) row)
  | .cast entries => some (entries.foldl (castColumn env) row)
  | .fillna defaults => some (defaults.foldl fillColumn row)

/-- `OpChain::apply`; `none` when a filter drops the row. -/
def OpChain.apply (chain : OpChain Expr) (row : Row) : Option Row :=
  chain.ops.foldlM (fun current op => op.apply env current) row

end Beava.Core
