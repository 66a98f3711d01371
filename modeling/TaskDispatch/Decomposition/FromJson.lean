import Mathlib
import TaskDispatch.Decomposition.DagVisitor

/-!
# `decomposition/expression`: reading an expression from JSON

`Expr::FromJson` on a parsed document. `Spells` is the grammar: the one way, up to how the library
stores a number, in which a document writes an expression. What is written so is read back
(`fromJsonImpl_toJson`); the converse fails. The parser looks at the first key of a node and at the
two members of its value that it knows, so it takes documents that are not written so, and hands out
nodes with an operand missing. `Faulty` and `Undefined` say where it complains and where it has no
defined behaviour, and with these `readsOnlyWellFormed_iff` says for which documents it reads a
well-formed expression or none.
-/

set_option autoImplicit false

namespace TaskDispatch

/-! ## Documents -/

/-- `nlohmann::json`. The members of an object are in the order of its iterators. A number is an
integer where it fits 64 bits, and else a double. -/
inductive Json where
  | null
  | boolean (b : Bool)
  | numberInteger (n : Int64)
  | numberUnsigned (n : UInt64)
  | numberFloat (x : ℚ)
  | string (s : String)
  | array (elements : List Json)
  | object (members : List (String × Json))

namespace Json

/-- What `.at(key)` finds, where `.contains(key)`: nothing in what is no object. -/
def member (key : String) : Json → Option Json
  | object members => members.lookup key
  | _ => none

/-- `.at(key)` -/
def at' (key : String) : Json → Result Json
  | object members =>
    match members.lookup key with
    | some value => .ok value
    | none => .error (.thrown .jsonOutOfRange)
  | _ => .error (.thrown .jsonTypeError)

/-- `.get<std::string>()` -/
def getString : Json → Result String
  | string s => .ok s
  | _ => .error (.thrown .jsonTypeError)

/-- `.get<int>()`: a `static_cast` of whatever number it is, or of a `bool`. A double is cut off
towards zero, and has to fit. -/
def getInt : Json → Result Scalar
  | numberInteger n => .ok n.toInt32
  | numberUnsigned n => .ok n.toUInt32.toInt32
  | numberFloat x => Domain.intOf (x.num.tdiv x.den)
  | boolean b => .ok (if b then 1 else 0)
  | _ => .error (.thrown .jsonTypeError)

/-- The integer a document has at this place. -/
def IsInteger (value : Json) (z : ℤ) : Prop :=
  (∃ n, value = numberInteger n ∧ n.toInt = z) ∨ ∃ n, value = numberUnsigned n ∧ n.toNat = z

/-- The parser of the library stores what is not negative as unsigned. -/
def ofScalar (x : Scalar) : Json :=
  if 0 ≤ x.toInt then numberUnsigned (.ofNat x.toInt.toNat) else numberInteger (.ofInt x.toInt)

end Json

/-! ## The parser -/

/-- `STRING_TO_EXPR_TYPE` -/
def stringToExprType : List (String × ExprType) :=
  [("invalid", .invalid), ("re_min", .reMin), ("re_max", .reMax), ("re_mul", .reMul),
   ("re_sum", .reSum), ("re_size", .reSize), ("me_add", .meAdd), ("me_mul", .meMul),
   ("me_div", .meDiv), ("lo_add", .loAdd), ("lo_mul", .loMul), ("lo_div", .loDiv),
   ("lo_dot", .loDot), ("so_add", .soAdd), ("so_mul", .soMul), ("so_div", .soDiv),
   ("so_max", .soMax), ("so_min", .soMin), ("list", .list), ("scalar_const", .scalarConst),
   ("scalar_var", .scalarVar)]

/-- `key.starts_with("scalar")` -/
def StartsWithScalar (key : String) : Prop := "scalar".toList <+: key.toList

instance (key : String) : Decidable (StartsWithScalar key) :=
  inferInstanceAs (Decidable (_ <+: _))

mutual

/-- `begin()` of an empty object is its end, where there is no key to be asked for. -/
def fromJsonImpl : Json → Result Expr
  | .object ((key, node) :: _) =>
    if key = "list" then do
      Expr.new .list none none (some (← node.getString)) none
    else if StartsWithScalar key then
      if key = "scalar_var" then do
        Expr.new .scalarVar none none (some (← node.getString)) none
      else do
        Expr.new .scalarConst none none none (some (← node.getInt))
    else do
      let ((type, lhs), rhs) ← Result.unsequenced
        (Result.unsequenced (.ofLookup (stringToExprType.lookup key)) (fromMember "lhs" node))
        (fromMember "rhs" node)
      Expr.new type lhs rhs none none
  | .object [] => .error .undefined
  | _ => .error (.thrown .jsonInvalidIterator)

/-- `node->contains(key) ? FromJsonImpl(node->at(key)) : nullptr` -/
def fromMember (key : String) : Json → Result (Option Expr)
  | .object members => fromMembers key members
  | _ => .ok none

def fromMembers (key : String) : List (String × Json) → Result (Option Expr)
  | [] => .ok none
  | (k, value) :: members =>
    if k = key then do .ok (some (← fromJsonImpl value)) else fromMembers key members

end

/-- `Expr::FromJson` -/
def Expr.fromJson (jsonAst : Json) : Result Expr := do fromJsonImpl (← jsonAst.at' "ast")

/-! ## The grammar -/

/-- The name of a type in the table. -/
def ExprType.name (type : ExprType) : String :=
  ((stringToExprType.find? (·.2 = type)).map (·.1)).getD ""

/-- The document is written as the grammar has it, for this expression. -/
inductive Spells : Json → Expr → Prop where
  | reduceExpr {type a e} : Spells a e →
      Spells (.object [(type.getType.name, .object [("lhs", a)])]) (.reduceExpr type (some e))
  | mapExpr {type a b e f} : Spells a e → Spells b f →
      Spells (.object [(type.getType.name, .object [("lhs", a), ("rhs", b)])])
        (.mapExpr type (some e) (some f))
  | listOpExpr {type a b e f} : Spells a e → Spells b f →
      Spells (.object [(type.getType.name, .object [("lhs", a), ("rhs", b)])])
        (.listOpExpr type (some e) (some f))
  | scalarOpExpr {type a b e f} : Spells a e → Spells b f →
      Spells (.object [(type.getType.name, .object [("lhs", a), ("rhs", b)])])
        (.scalarOpExpr type (some e) (some f))
  | listExpr {l} : Spells (.object [("list", .string l)]) (.listExpr l)
  | scalarConstExpr {value x} : value.IsInteger x.toInt →
      Spells (.object [("scalar_const", value)]) (.scalarConstExpr x)
  | scalarVarExpr {x} : Spells (.object [("scalar_var", .string x)]) (.scalarVarExpr x)

namespace Expr

mutual

/-- The JSON form of an expression. -/
def toJson : Expr → Json
  | e@(reduceExpr _ operand) => .object [(e.getType.name, .object (toMember "lhs" operand))]
  | e@(mapExpr _ lhs rhs) =>
    .object [(e.getType.name, .object (toMember "lhs" lhs ++ toMember "rhs" rhs))]
  | e@(listOpExpr _ lhs rhs) =>
    .object [(e.getType.name, .object (toMember "lhs" lhs ++ toMember "rhs" rhs))]
  | e@(scalarOpExpr _ lhs rhs) =>
    .object [(e.getType.name, .object (toMember "lhs" lhs ++ toMember "rhs" rhs))]
  | listExpr l => .object [("list", .string l)]
  | scalarConstExpr x => .object [("scalar_const", .ofScalar x)]
  | scalarVarExpr x => .object [("scalar_var", .string x)]

def toMember (key : String) : Option Expr → List (String × Json)
  | some e => [(key, e.toJson)]
  | none => []

end

end Expr

/-! ## What is written well is read -/

theorem lookup_name (type : ExprType) : stringToExprType.lookup type.name = some type := by
  cases type <;> decide

/-- The keys for which the parser takes the third branch. -/
def IsOperatorKey (key : String) : Prop := key ≠ "list" ∧ ¬StartsWithScalar key

instance (key : String) : Decidable (IsOperatorKey key) := inferInstanceAs (Decidable (_ ∧ _))

theorem isOperatorKey_name {type : ExprType} (h : ¬type.IsLeaf) : IsOperatorKey type.name := by
  cases type <;> first | decide | exact absurd (by decide) h

theorem fromMember_eq (key : String) (node : Json) : fromMember key node =
    match node.member key with
    | some value => fromJsonImpl value >>= fun e => .ok (some e)
    | none => .ok none := by
  cases node with
  | object members =>
    rw [fromMember, Json.member]
    induction members with
    | nil => rfl
    | cons head members ih =>
      obtain ⟨k, value⟩ := head
      rw [fromMembers, List.lookup_cons]
      by_cases hk : k = key
      · simp [hk]
      · rw [if_neg hk, ih, beq_false_of_ne (Ne.symm hk)]
  | _ => rfl

/-- An operator is made of what the two members are read as. -/
theorem fromJsonImpl_operator {key : String} (hkey : IsOperatorKey key) (node : Json)
    (rest : List (String × Json)) : fromJsonImpl (.object ((key, node) :: rest)) =
      (Result.unsequenced
        (Result.unsequenced (.ofLookup (stringToExprType.lookup key)) (fromMember "lhs" node))
        (fromMember "rhs" node)) >>= fun p => Expr.new p.1.1 p.1.2 p.2 none none := by
  rw [fromJsonImpl, if_neg hkey.1, if_neg hkey.2]

/-- An integer that is an `int` is stored unchanged. -/
theorem Json.IsInteger.getInt {value : Json} {x : Scalar} (h : value.IsInteger x.toInt) :
    value.getInt = .ok x := by
  have hlt := x.toInt_lt
  have hle := x.le_toInt
  rcases h with ⟨n, rfl, hn⟩ | ⟨n, rfl, hn⟩
  · have hcast : n.toInt32 = x := by
      apply Int32.toInt_inj.mp
      rw [Int64.toInt_toInt32, hn, Int.bmod_eq_of_le (by omega) (by omega)]
    rw [Json.getInt, hcast]
  · have htoInt : n.toUInt32.toInt32.toInt = (n.toUInt32.toNat : ℤ).bmod (2 ^ 32) := by
      show BitVec.toInt _ = _
      rw [BitVec.toInt_eq_toNat_bmod]
      rfl
    have hcast : n.toUInt32.toInt32 = x := by
      apply Int32.toInt_inj.mp
      rw [htoInt, UInt64.toNat_toUInt32, Nat.mod_eq_of_lt (by omega),
        Int.bmod_eq_of_le (by omega) (by omega), hn]
    rw [Json.getInt, hcast]

theorem Json.isInteger_ofScalar (x : Scalar) : (Json.ofScalar x).IsInteger x.toInt := by
  have hlt := x.toInt_lt
  have hle := x.le_toInt
  unfold Json.ofScalar
  split_ifs with hsign
  · refine .inr ⟨_, rfl, ?_⟩
    rw [UInt64.toNat_ofNat', Nat.mod_eq_of_lt (by omega), Int.toNat_of_nonneg hsign]
  · refine .inl ⟨_, rfl, ?_⟩
    rw [Int64.toInt_ofInt_of_le (by omega) (by omega)]

/-- **What is written as the grammar has it is read as what it says.** -/
theorem Spells.fromJsonImpl {json : Json} {e : Expr} (h : Spells json e) :
    fromJsonImpl json = .ok e := by
  induction h with
  | @reduceExpr type a e _ ih =>
    have hop : ¬type.getType.IsLeaf := by cases type <;> decide
    rw [fromJsonImpl_operator (isOperatorKey_name hop), lookup_name]
    cases type <;> simp [fromMember, fromMembers, ih, ReduceType.getType, Expr.new]
  | @mapExpr type a b e f _ _ iha ihb =>
    have hop : ¬type.getType.IsLeaf := by cases type <;> decide
    rw [fromJsonImpl_operator (isOperatorKey_name hop), lookup_name]
    cases type <;> simp [fromMember, fromMembers, iha, ihb, MapType.getType, Expr.new]
  | @listOpExpr type a b e f _ _ iha ihb =>
    have hop : ¬type.getType.IsLeaf := by cases type <;> decide
    rw [fromJsonImpl_operator (isOperatorKey_name hop), lookup_name]
    cases type <;> simp [fromMember, fromMembers, iha, ihb, ListOpType.getType, Expr.new]
  | @scalarOpExpr type a b e f _ _ iha ihb =>
    have hop : ¬type.getType.IsLeaf := by cases type <;> decide
    rw [fromJsonImpl_operator (isOperatorKey_name hop), lookup_name]
    cases type <;> simp [fromMember, fromMembers, iha, ihb, ScalarOpType.getType, Expr.new]
  | listExpr => rfl
  | @scalarConstExpr value x hvalue =>
    have hscalar : StartsWithScalar "scalar_const" := by decide
    rw [TaskDispatch.fromJsonImpl, if_neg (by decide), if_pos hscalar, if_neg (by decide),
      hvalue.getInt]
    rfl
  | scalarVarExpr => rfl

theorem Expr.Complete.spells {e : Expr} (h : e.Complete) : Spells e.toJson e := by
  induction h with
  | reduceExpr _ ih => exact .reduceExpr ih
  | mapExpr _ _ iha ihb => exact .mapExpr iha ihb
  | listOpExpr _ _ iha ihb => exact .listOpExpr iha ihb
  | scalarOpExpr _ _ iha ihb => exact .scalarOpExpr iha ihb
  | listExpr => exact .listExpr
  | scalarConstExpr => exact .scalarConstExpr (Json.isInteger_ofScalar _)
  | scalarVarExpr => exact .scalarVarExpr

/-- **Every expression can be written and read back.** -/
theorem fromJsonImpl_toJson (ast : AST) : fromJsonImpl ast.root.toJson = .ok ast.root :=
  ast.complete.spells.fromJsonImpl

/-! ## What is read -/

theorem Spells.complete {json : Json} {e : Expr} (h : Spells json e) : e.Complete := by
  induction h with
  | reduceExpr _ ih => exact .reduceExpr ih
  | mapExpr _ _ iha ihb => exact .mapExpr iha ihb
  | listOpExpr _ _ iha ihb => exact .listOpExpr iha ihb
  | scalarOpExpr _ _ iha ihb => exact .scalarOpExpr iha ihb
  | listExpr => exact .listExpr
  | scalarConstExpr => exact .scalarConstExpr
  | scalarVarExpr => exact .scalarVarExpr

/-- One of the two members that the parser knows is there, and has the property. -/
def SomeMember (P : Json → Prop) (node : Json) : Prop :=
  ∃ key value, (key = "lhs" ∨ key = "rhs") ∧ node.member key = some value ∧ P value

/-- The parser meets something that has no defined behaviour: an empty object for a node, or a
double that is too large for an `int`. -/
inductive Undefined : Json → Prop where
  | empty : Undefined (.object [])
  | constant {key x rest} : StartsWithScalar key → key ≠ "scalar_var" →
      x.num.tdiv x.den < Int32.minValue.toInt ∨ Int32.maxValue.toInt < x.num.tdiv x.den →
      Undefined (.object ((key, .numberFloat x) :: rest))
  | member {key node rest name value} : IsOperatorKey key → name = "lhs" ∨ name = "rhs" →
      node.member name = some value → Undefined value → Undefined (.object ((key, node) :: rest))

/-- `get<int>` takes it. -/
def Json.IsNumber : Json → Prop
  | boolean _ | numberInteger _ | numberUnsigned _ | numberFloat _ => True
  | _ => False

/-- The parser meets something it complains about: a node that is no object, a variable whose name
is no string, a constant that is no number, or the name of no operator. -/
inductive Faulty : Json → Prop where
  | node {json} : (∀ members, json ≠ .object members) → Faulty json
  | identifier {key node rest} : key = "list" ∨ key = "scalar_var" → (∀ s, node ≠ .string s) →
      Faulty (.object ((key, node) :: rest))
  | constant {key node rest} : StartsWithScalar key → key ≠ "scalar_var" → ¬node.IsNumber →
      Faulty (.object ((key, node) :: rest))
  | operator {key node rest} : IsOperatorKey key → stringToExprType.lookup key = none ∨
      stringToExprType.lookup key = some .invalid → Faulty (.object ((key, node) :: rest))
  | member {key node rest name value} : IsOperatorKey key → name = "lhs" ∨ name = "rhs" →
      node.member name = some value → Faulty value → Faulty (.object ((key, node) :: rest))

section Outcome

variable {key : String} {node : Json} {rest : List (String × Json)}

theorem undefined_operator (hkey : IsOperatorKey key) :
    Undefined (.object ((key, node) :: rest)) ↔ SomeMember Undefined node := by
  constructor
  · intro h
    cases h with
    | constant hscalar => exact absurd hscalar hkey.2
    | member _ hname hmember hvalue => exact ⟨_, _, hname, hmember, hvalue⟩
  · rintro ⟨name, value, hname, hmember, hvalue⟩
    exact .member hkey hname hmember hvalue

theorem faulty_operator (hkey : IsOperatorKey key) :
    Faulty (.object ((key, node) :: rest)) ↔ (stringToExprType.lookup key = none ∨
      stringToExprType.lookup key = some .invalid) ∨ SomeMember Faulty node := by
  constructor
  · intro h
    cases h with
    | node hnode => exact absurd rfl (hnode _)
    | identifier hidentifier =>
      rcases hidentifier with rfl | rfl
      · exact absurd rfl hkey.1
      · exact absurd (by decide) hkey.2
    | constant hscalar => exact absurd hscalar hkey.2
    | operator _ hlookup => exact .inl hlookup
    | member _ hname hmember hvalue => exact .inr ⟨_, _, hname, hmember, hvalue⟩
  · rintro (hlookup | ⟨name, value, hname, hmember, hvalue⟩)
    · exact .operator hkey hlookup
    · exact .member hkey hname hmember hvalue

theorem sizeOf_member {name : String} {value : Json} (h : node.member name = some value) :
    sizeOf value < sizeOf node := by
  cases node with
  | object members =>
    rw [Json.member] at h
    induction members with
    | nil => cases h
    | cons head members ih =>
      obtain ⟨k, v⟩ := head
      rw [List.lookup_cons] at h
      split at h
      · obtain rfl := Option.some.inj h
        simp
        omega
      · have hlt := ih h
        simp at hlt ⊢
        omega
  | _ => cases h

/-- Induction over the nodes the parser goes to. -/
theorem Json.induct {motive : Json → Prop}
    (step : ∀ json, (∀ key node rest name value, json = .object ((key, node) :: rest) →
      node.member name = some value → motive value) → motive json) (json : Json) :
    motive json :=
  step json fun key node rest _ value hjson hmember => by
    have hlt := sizeOf_member hmember
    have hnode : sizeOf node < sizeOf json := by
      rw [hjson]
      simp
      omega
    exact Json.induct step value
termination_by sizeOf json

theorem fromMember_eq_error {name : String} {fault : Fault} :
    fromMember name node = .error fault ↔
      ∃ value, node.member name = some value ∧ fromJsonImpl value = .error fault := by
  rw [fromMember_eq]
  cases hmember : node.member name with
  | none => simp
  | some value => cases hvalue : fromJsonImpl value <;> simp [hvalue]

theorem fromMember_returns {name : String} : (∃ operand, fromMember name node = .ok operand) ↔
    ∀ value, node.member name = some value → ∃ e, fromJsonImpl value = .ok e := by
  rw [fromMember_eq]
  cases hmember : node.member name with
  | none => simp
  | some value => cases hvalue : fromJsonImpl value <;> simp [hvalue]

/-- The names of the table that get as far as the third branch are those of the operators, and
`invalid`. -/
theorem new_of_lookup (hkey : IsOperatorKey key) {type : ExprType}
    (hlookup : stringToExprType.lookup key = some type) (lhs rhs : Option Expr) :
    (type = .invalid ∧ ∃ x, Expr.new type lhs rhs none none = .error (.thrown x)) ∨
      (type ≠ .invalid ∧ ∃ e, Expr.new type lhs rhs none none = .ok e) := by
  have hname : ∀ entry ∈ stringToExprType, entry.2.name = entry.1 := by decide
  obtain ⟨before, after, hsplit, -⟩ := List.lookup_eq_some_iff.mp hlookup
  have hkeyname : type.name = key :=
    hname (key, type) (hsplit ▸ List.mem_append_right _ List.mem_cons_self)
  subst hkeyname
  cases type with
  | invalid => exact .inl ⟨rfl, _, rfl⟩
  | list | scalarConst | scalarVar => exact absurd hkey (by decide)
  | _ => exact .inr ⟨by decide, _, rfl⟩

/-- What is no exception comes from an operand. -/
theorem operator_error (hkey : IsOperatorKey key) {fault : Fault}
    (hfault : ∀ x, fault ≠ .thrown x)
    (h : fromJsonImpl (.object ((key, node) :: rest)) = .error fault) :
    SomeMember (fun value => fromJsonImpl value = .error fault) node := by
  rw [fromJsonImpl_operator hkey, Result.bind_eq_error] at h
  rcases h with h | ⟨⟨⟨type, lhs⟩, rhs⟩, hp, hnew⟩
  · rcases Result.unsequenced_eq_error h with h | h
    · rcases Result.unsequenced_eq_error h with h | h
      · cases hlookup : stringToExprType.lookup key with
        | none =>
          rw [hlookup] at h
          exact absurd (Except.error.inj h).symm (hfault _)
        | some type =>
          rw [hlookup] at h
          cases h
      · obtain ⟨value, hmember, hvalue⟩ := fromMember_eq_error.mp h
        exact ⟨"lhs", value, .inl rfl, hmember, hvalue⟩
    · obtain ⟨value, hmember, hvalue⟩ := fromMember_eq_error.mp h
      exact ⟨"rhs", value, .inr rfl, hmember, hvalue⟩
  · obtain ⟨htype, -⟩ := Result.unsequenced_eq_ok.mp hp
    obtain ⟨htype, -⟩ := Result.unsequenced_eq_ok.mp htype
    rcases new_of_lookup hkey (Result.ofLookup_eq_ok.mp htype) lhs rhs with
      ⟨-, x, hx⟩ | ⟨-, e, he⟩
    · exact absurd (Except.error.inj (hnew.symm.trans hx)) (hfault x)
    · exact absurd (hnew.symm.trans he) (by simp)

/-- Where an operand has no defined behaviour, the operator has none. -/
theorem operator_undefined (hkey : IsOperatorKey key)
    (h : SomeMember (fun value => fromJsonImpl value = .error .undefined) node) :
    fromJsonImpl (.object ((key, node) :: rest)) = .error .undefined := by
  rw [fromJsonImpl_operator hkey, Result.bind_eq_error, Result.unsequenced_eq_undefined,
    Result.unsequenced_eq_undefined]
  obtain ⟨name, value, rfl | rfl, hmember, hvalue⟩ := h
  · exact .inl (.inl (.inr (fromMember_eq_error.mpr ⟨value, hmember, hvalue⟩)))
  · exact .inl (.inr (fromMember_eq_error.mpr ⟨value, hmember, hvalue⟩))

/-- An operator is read where its name is one and its operands are read. -/
theorem operator_returns (hkey : IsOperatorKey key) :
    (∃ e, fromJsonImpl (.object ((key, node) :: rest)) = .ok e) ↔
      (∃ type, stringToExprType.lookup key = some type ∧ type ≠ .invalid) ∧
        ∀ name value, name = "lhs" ∨ name = "rhs" → node.member name = some value →
          ∃ e, fromJsonImpl value = .ok e := by
  rw [fromJsonImpl_operator hkey]
  simp only [Result.bind_ok_iff, Result.unsequenced_eq_ok, Result.ofLookup_eq_ok]
  constructor
  · rintro ⟨e, ⟨⟨type, lhs⟩, rhs⟩, ⟨⟨htype, hlhs⟩, hrhs⟩, hnew⟩
    refine ⟨⟨type, htype, ?_⟩, ?_⟩
    · rintro rfl
      cases hnew
    · rintro name value (rfl | rfl)
      · exact fromMember_returns.mp ⟨lhs, hlhs⟩ value
      · exact fromMember_returns.mp ⟨rhs, hrhs⟩ value
  · rintro ⟨⟨type, htype, hvalid⟩, hmember⟩
    obtain ⟨lhs, hlhs⟩ := fromMember_returns.mpr fun value => hmember "lhs" value (.inl rfl)
    obtain ⟨rhs, hrhs⟩ := fromMember_returns.mpr fun value => hmember "rhs" value (.inr rfl)
    rcases new_of_lookup hkey htype lhs rhs with ⟨hinvalid, -⟩ | ⟨-, e, he⟩
    · exact absurd hinvalid hvalid
    · exact ⟨e, ⟨⟨type, lhs⟩, rhs⟩, ⟨⟨htype, hlhs⟩, hrhs⟩, he⟩

/-- `static_cast<int>` of a double. -/
theorem intOf_eq_undefined {z : ℤ} : Domain.intOf z = .error .undefined ↔
    z < Int32.minValue.toInt ∨ Int32.maxValue.toInt < z := by
  unfold Domain.intOf
  split_ifs with hfits
  · simp only [false_iff]
    omega
  · simp only [true_iff]
    omega

theorem getInt_cases (value : Json) :
    (∃ x, value.getInt = .ok x ∧ value.IsNumber) ∨ value.getInt = .error .undefined ∨
      (value.getInt = .error (.thrown .jsonTypeError) ∧ ¬value.IsNumber) := by
  cases value with
  | numberFloat x =>
    show (∃ y, Domain.intOf (x.num.tdiv x.den) = .ok y ∧ True) ∨
      Domain.intOf (x.num.tdiv x.den) = .error .undefined ∨ _
    unfold Domain.intOf
    split_ifs with hfits
    · exact .inl ⟨_, rfl, trivial⟩
    · exact .inr (.inl rfl)
  | numberInteger | numberUnsigned | boolean => exact .inl ⟨_, rfl, trivial⟩
  | null | string | array | object => exact .inr (.inr ⟨rfl, id⟩)

/-- The two keys of a variable. -/
def IsVariableKey (key : String) : Prop := key = "list" ∨ key = "scalar_var"

theorem undefined_variable (hkey : IsVariableKey key) :
    ¬Undefined (.object ((key, node) :: rest)) := by
  intro h
  cases h with
  | constant hscalar hvar =>
    rcases hkey with rfl | rfl
    · exact absurd hscalar (by decide)
    · exact absurd rfl hvar
  | member hoperator =>
    rcases hkey with rfl | rfl
    · exact absurd rfl hoperator.1
    · exact absurd (by decide) hoperator.2

theorem faulty_variable (hkey : IsVariableKey key) :
    Faulty (.object ((key, node) :: rest)) ↔ ∀ s, node ≠ .string s := by
  have hnot : ¬IsOperatorKey key := by
    rcases hkey with rfl | rfl <;> decide
  constructor
  · intro h
    cases h with
    | node hnode => exact absurd rfl (hnode _)
    | identifier _ hstring => exact hstring
    | constant hscalar hvar =>
      rcases hkey with rfl | rfl
      · exact absurd hscalar (by decide)
      · exact absurd rfl hvar
    | operator hoperator | member hoperator => exact absurd hoperator hnot
  · exact .identifier hkey

theorem fromJsonImpl_variable (hkey : IsVariableKey key) : ∃ make : VariableId → Expr,
    fromJsonImpl (.object ((key, node) :: rest)) = node.getString >>= fun s => .ok (make s) := by
  rcases hkey with rfl | rfl
  · exact ⟨.listExpr, rfl⟩
  · exact ⟨.scalarVarExpr, rfl⟩

theorem undefined_constant (hscalar : StartsWithScalar key) (hvar : key ≠ "scalar_var") :
    Undefined (.object ((key, node) :: rest)) ↔ node.getInt = .error .undefined := by
  constructor
  · intro h
    cases h with
    | constant _ _ hrange => exact intOf_eq_undefined.mpr hrange
    | member hoperator => exact absurd hscalar hoperator.2
  · intro h
    cases node with
    | numberFloat x => exact .constant hscalar hvar (intOf_eq_undefined.mp h)
    | _ => cases h

theorem faulty_constant (hscalar : StartsWithScalar key) (hvar : key ≠ "scalar_var") :
    Faulty (.object ((key, node) :: rest)) ↔ ¬node.IsNumber := by
  constructor
  · intro h
    cases h with
    | node hnode => exact absurd rfl (hnode _)
    | identifier hidentifier =>
      rcases hidentifier with rfl | rfl
      · exact absurd hscalar (by decide)
      · exact absurd rfl hvar
    | constant _ _ hnumber => exact hnumber
    | operator hoperator | member hoperator => exact absurd hscalar hoperator.2
  · exact .constant hscalar hvar

theorem fromJsonImpl_constant (hscalar : StartsWithScalar key) (hvar : key ≠ "scalar_var") :
    fromJsonImpl (.object ((key, node) :: rest)) =
      node.getInt >>= fun x => .ok (.scalarConstExpr x) := by
  have hlist : key ≠ "list" := by
    rintro rfl
    exact absurd hscalar (by decide)
  rw [fromJsonImpl, if_neg hlist, if_pos hscalar, if_neg hvar]
  rfl

/-- What the outcome of the parser says about the document. -/
structure Described (json : Json) : Prop where
  undefined : fromJsonImpl json = .error .undefined ↔ Undefined json
  not_aborted : fromJsonImpl json ≠ .error .aborted
  returns : (∃ e, fromJsonImpl json = .ok e) ↔ ¬Undefined json ∧ ¬Faulty json

namespace Described

theorem identifier (hkey : IsVariableKey key) : Described (.object ((key, node) :: rest)) := by
  obtain ⟨make, hread⟩ : ∃ make : VariableId → Expr,
      fromJsonImpl (.object ((key, node) :: rest)) = node.getString >>= fun s => .ok (make s) :=
    fromJsonImpl_variable hkey
  have hundefined : ¬Undefined (.object ((key, node) :: rest)) := undefined_variable hkey
  have hstring : (∃ s, node = .string s ∧ node.getString = .ok s) ∨
      ((∀ s, node ≠ .string s) ∧ node.getString = .error (.thrown .jsonTypeError)) := by
    cases node with
    | string s => exact .inl ⟨s, rfl, rfl⟩
    | _ => exact .inr ⟨by simp, rfl⟩
  rcases hstring with ⟨s, rfl, hs⟩ | ⟨hnode, herror⟩
  · have hnotFaulty : ¬Faulty (.object ((key, .string s) :: rest)) :=
      fun h => (faulty_variable hkey).mp h s rfl
    rw [hs] at hread
    exact ⟨by simp [hread, hundefined], by simp [hread], by simp [hread, hundefined, hnotFaulty]⟩
  · have hfaulty : Faulty (.object ((key, node) :: rest)) := (faulty_variable hkey).mpr hnode
    rw [herror] at hread
    exact ⟨by simp [hread, hundefined], by simp [hread], by simp [hread, hfaulty]⟩

theorem constant (hscalar : StartsWithScalar key) (hvar : key ≠ "scalar_var") :
    Described (.object ((key, node) :: rest)) := by
  have hread : fromJsonImpl (.object ((key, node) :: rest)) =
      node.getInt >>= fun x => .ok (.scalarConstExpr x) := fromJsonImpl_constant hscalar hvar
  have hundefined : Undefined (.object ((key, node) :: rest)) ↔ node.getInt = .error .undefined :=
    undefined_constant hscalar hvar
  have hfaulty : Faulty (.object ((key, node) :: rest)) ↔ ¬node.IsNumber :=
    faulty_constant hscalar hvar
  rcases getInt_cases node with ⟨x, hx, hnumber⟩ | herror | ⟨herror, hnumber⟩
  · rw [hx] at hread hundefined
    exact ⟨by simp [hread, hundefined], by simp [hread], by simp [hread, hundefined, hfaulty,
      hnumber]⟩
  · rw [herror] at hread hundefined
    exact ⟨by simp [hread, hundefined], by simp [hread], by simp [hread, hundefined]⟩
  · rw [herror] at hread hundefined
    exact ⟨by simp [hread, hundefined], by simp [hread], by simp [hread, hfaulty, hnumber]⟩

theorem operator (hkey : IsOperatorKey key)
    (ih : ∀ name value, node.member name = some value → Described value) :
    Described (.object ((key, node) :: rest)) where
  undefined := by
    rw [undefined_operator hkey]
    constructor
    · intro h
      obtain ⟨name, value, hname, hmember, hvalue⟩ := operator_error hkey (by simp) h
      exact ⟨name, value, hname, hmember, (ih name value hmember).undefined.mp hvalue⟩
    · rintro ⟨name, value, hname, hmember, hvalue⟩
      exact operator_undefined hkey
        ⟨name, value, hname, hmember, (ih name value hmember).undefined.mpr hvalue⟩
  not_aborted := by
    intro h
    obtain ⟨name, value, -, hmember, hvalue⟩ := operator_error hkey (by simp) h
    exact (ih name value hmember).not_aborted hvalue
  returns := by
    rw [operator_returns hkey, undefined_operator hkey, faulty_operator hkey]
    constructor
    · rintro ⟨⟨type, htype, hvalid⟩, hoperands⟩
      constructor
      · rintro ⟨name, value, hname, hmember, hvalue⟩
        exact ((ih name value hmember).returns.mp (hoperands name value hname hmember)).1 hvalue
      · rintro ((hnone | hinvalid) | ⟨name, value, hname, hmember, hvalue⟩)
        · rw [htype] at hnone
          cases hnone
        · exact hvalid (Option.some.inj (htype.symm.trans hinvalid))
        · exact ((ih name value hmember).returns.mp (hoperands name value hname hmember)).2 hvalue
    · -- the operator has a type, and each operand that is there is read
      rintro ⟨hundefined, hfaulty⟩
      constructor
      · cases htype : stringToExprType.lookup key with
        | none => exact absurd (.inl (.inl htype)) hfaulty
        | some type =>
          refine ⟨type, rfl, ?_⟩
          rintro rfl
          exact hfaulty (.inl (.inr htype))
      · intro name value hname hmember
        apply (ih name value hmember).returns.mpr
        constructor
        · exact fun hvalue => hundefined ⟨name, value, hname, hmember, hvalue⟩
        · exact fun hvalue => hfaulty (.inr ⟨name, value, hname, hmember, hvalue⟩)

theorem notObject {json : Json} (hread : fromJsonImpl json = .error (.thrown .jsonInvalidIterator))
    (hundefined : ¬Undefined json) (hnode : ∀ members, json ≠ .object members) :
    Described json :=
  ⟨by simp [hread, hundefined], by simp [hread], by simp [hread, Faulty.node hnode]⟩

/-- **Where the parser complains, and where it has no defined behaviour.** -/
theorem of_json (json : Json) : Described json := by
  apply json.induct (motive := Described)
  intro json ih
  cases json with
  | object members =>
    rcases members with _ | ⟨⟨key, node⟩, rest⟩
    · have hread : fromJsonImpl (.object []) = .error .undefined := rfl
      exact ⟨by simp [hread, Undefined.empty], by simp [hread], by simp [hread, Undefined.empty]⟩
    · by_cases hvariable : IsVariableKey key
      · exact identifier hvariable
      · obtain ⟨hlist, hvar⟩ := not_or.mp hvariable
        by_cases hscalar : StartsWithScalar key
        · exact constant hscalar hvar
        · exact operator ⟨hlist, hscalar⟩ fun name value => ih key node rest name value rfl
  | _ => exact notObject rfl (by intro h; cases h) (by simp)

end Described
end Outcome

/-! ## Which documents are read as they should be -/

/-- The tree under "ast" is written as the grammar has it, for this expression. -/
def SpellsAst (jsonAst : Json) (e : Expr) : Prop :=
  ∃ root, jsonAst.member "ast" = some root ∧ Spells root e

/-- The parser complains, and has met nothing undefined. -/
def Complains (jsonAst : Json) : Prop :=
  ∀ root, jsonAst.member "ast" = some root → Faulty root ∧ ¬Undefined root

/-- What `FromJson` should do with a document: read what follows the grammar, and as what it says,
so that no operand is missing where a tree is traversed or compared; and throw at the rest. -/
structure ReadsOnlyWellFormed (jsonAst : Json) : Prop where
  spells : ∀ e, Expr.fromJson jsonAst = .ok e → SpellsAst jsonAst e
  complete : ∀ e, Expr.fromJson jsonAst = .ok e → e.Complete
  traversed : ∀ e, Expr.fromJson jsonAst = .ok e →
    ∃ visitor, e.postorderTraverse DagVisitor.visit {} = .ok visitor
  compared : ∀ e f, Expr.fromJson jsonAst = .ok e → f.Complete → ∃ r, e.opEq f = .ok r
  thrown : (¬∃ e, SpellsAst jsonAst e) → ∃ x, Expr.fromJson jsonAst = .error (.thrown x)

theorem fromJson_of_member {jsonAst root : Json} (h : jsonAst.member "ast" = some root) :
    Expr.fromJson jsonAst = fromJsonImpl root := by
  cases jsonAst with
  | object members =>
    rw [Json.member] at h
    rw [Expr.fromJson, Json.at', h]
    rfl
  | _ => cases h

theorem fromJson_of_none {jsonAst : Json} (h : jsonAst.member "ast" = none) :
    ∃ x, Expr.fromJson jsonAst = .error (.thrown x) := by
  cases jsonAst with
  | object members =>
    rw [Json.member] at h
    rw [Expr.fromJson, Json.at', h]
    exact ⟨_, rfl⟩
  | _ => exact ⟨_, rfl⟩

/-- The parser throws exactly where it complains. -/
theorem fromJson_thrown_iff {jsonAst : Json} :
    (∃ x, Expr.fromJson jsonAst = .error (.thrown x)) ↔ Complains jsonAst := by
  cases hroot : jsonAst.member "ast" with
  | none => exact iff_of_true (fromJson_of_none hroot) (by simp [Complains, hroot])
  | some root =>
    have h := Described.of_json root
    rw [fromJson_of_member hroot]
    have hcomplains : Complains jsonAst ↔ Faulty root ∧ ¬Undefined root := by
      simp [Complains, hroot]
    rw [hcomplains]
    constructor
    · rintro ⟨x, hx⟩
      have hundefined : ¬Undefined root := fun hu => by simp [h.undefined.mpr hu] at hx
      refine ⟨by_contra ?_, hundefined⟩
      intro hfaulty
      obtain ⟨e, he⟩ := h.returns.mpr ⟨hundefined, hfaulty⟩
      simp [he] at hx
    · rintro ⟨hfaulty, hundefined⟩
      cases hread : fromJsonImpl root with
      | ok e => exact absurd hfaulty (h.returns.mp ⟨e, hread⟩).2
      | error fault =>
        cases fault with
        | thrown x => exact ⟨x, rfl⟩
        | aborted => exact absurd hread h.not_aborted
        | undefined => exact absurd (h.undefined.mp hread) hundefined

/-- **When the parser reads well-formed expressions only**: where the document follows the grammar,
or the parser finds something to complain about. -/
theorem readsOnlyWellFormed_iff (jsonAst : Json) :
    ReadsOnlyWellFormed jsonAst ↔ (∃ e, SpellsAst jsonAst e) ∨ Complains jsonAst := by
  constructor
  · intro h
    by_cases hspells : ∃ e, SpellsAst jsonAst e
    · exact .inl hspells
    · exact .inr (fromJson_thrown_iff.mp (h.thrown hspells))
  · rintro (⟨e, root, hroot, hspells⟩ | hcomplains)
    · have hread : Expr.fromJson jsonAst = .ok e :=
        (fromJson_of_member hroot).trans hspells.fromJsonImpl
      have hsame : ∀ f, Expr.fromJson jsonAst = .ok f → f = e :=
        fun f hf => Except.ok.inj (hf.symm.trans hread)
      refine
        { spells := fun f hf => ⟨root, hroot, hsame f hf ▸ hspells⟩
          complete := fun f hf => hsame f hf ▸ hspells.complete
          traversed := fun f hf =>
            ⟨_, DagVisitor.postorderTraverse_visit (hsame f hf ▸ hspells.complete)⟩
          compared := ?_
          thrown := fun hnot => absurd ⟨e, root, hroot, hspells⟩ hnot }
      intro f g hf hg
      obtain ⟨r, hr, -⟩ := (hsame f hf ▸ hspells.complete : f.Complete).opEq hg
      exact ⟨r, hr⟩
    · -- it throws, so there is no tree to speak of
      obtain ⟨x, hx⟩ := fromJson_thrown_iff.mpr hcomplains
      have hnot : ∀ e, Expr.fromJson jsonAst ≠ .ok e := fun e he => by simp [hx] at he
      exact ⟨fun e he => absurd he (hnot e), fun e he => absurd he (hnot e),
        fun e he => absurd he (hnot e), fun e _ he => absurd he (hnot e), fun _ => ⟨x, hx⟩⟩

/-- A product of two lists, of which the second is missing. -/
def missingOperand : Json :=
  .object [("ast", .object [("lo_dot", .object [("lhs", .object [("list", .string "L")])])])]

/-- The document is read, and the traversal of the tree follows a null pointer. -/
theorem missingOperand_read : ∃ e, Expr.fromJson missingOperand = .ok e ∧
    e.postorderTraverse DagVisitor.visit {} = .error .undefined ∧
    ¬ReadsOnlyWellFormed missingOperand := by
  refine ⟨.listOpExpr .dot (some (.listExpr "L")) none, rfl, rfl, ?_⟩
  intro h
  obtain ⟨visitor, hvisitor⟩ := h.traversed _ rfl
  cases hvisitor

/-- A second key, a second operand of a reduction, and any key that starts like that of a constant
go unnoticed; so does what is cut off a number. -/
example : fromJsonImpl (.object [("list", .string "L"), ("so_add", .null)]) =
    .ok (.listExpr "L") := rfl

example : fromJsonImpl (.object [("re_sum", .object [("lhs", .object [("list", .string "L")]),
    ("rhs", .object [("list", .string "K")])])]) =
      .ok (.reduceExpr .sum (some (.listExpr "L"))) := rfl

example : fromJsonImpl (.object [("scalar", .numberUnsigned (2 ^ 32 + 1))]) =
    .ok (.scalarConstExpr 1) := rfl

end TaskDispatch
