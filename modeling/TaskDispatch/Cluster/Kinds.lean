import Mathlib
import TaskDispatch.Cluster.Results

/-!
# Kinds

Nothing in the messages says which values are lists: the worker takes what it finds in the store
and calls `std::get` on it. What keeps these calls from throwing is the tree. Each operator has a
signature, a tree that respects the signatures evaluates to a value of its kind, and the values a
worker reads are those of the operands of its operator (`Sound`), in their order. So no task of a
well-kinded tree throws, whatever else runs on the cluster (`kind_soundness`).

Whether the computation is defined is another matter: a sum may overflow, a divisor may be zero,
and two lists may differ in length.
-/

set_option autoImplicit false

namespace TaskDispatch

open Proto Frontier Transition ValueNumbering

/-! ## Kinds and signatures -/

/-- The two alternatives of `domain::ExprResult` -/
inductive Kind where
  | list | scalar
  deriving DecidableEq, Repr

def ExprResult.kind : ExprResult → Kind
  | .list _ => .list
  | .scalar _ => .scalar

/-- The kinds an operator takes, and the one it gives. -/
def ExprType.signature : ExprType → Option (List Kind × Kind)
  | .reMin | .reMax | .reMul | .reSum | .reSize => some ([.list], .scalar)
  | .meAdd | .meMul | .meDiv => some ([.list, .scalar], .list)
  | .loAdd | .loMul | .loDiv => some ([.list, .list], .list)
  | .loDot => some ([.list, .list], .scalar)
  | .soAdd | .soMul | .soDiv | .soMax | .soMin => some ([.scalar, .scalar], .scalar)
  | .invalid | .list | .scalarConst | .scalarVar => none

theorem ExprType.signature_of_isLeaf {type : ExprType} (h : type.IsLeaf) :
    type.signature = none := by
  rcases h with rfl | rfl | rfl <;> rfl

/-! ## The operations do not throw -/

namespace Domain

open Result

variable (x₁ x₂ : Scalar) (l l₁ l₂ : List Scalar) {op : Scalar → Scalar → Result Scalar}

theorem noThrow_intOf (z : ℤ) : NoThrow (intOf z) := by
  unfold intOf
  split
  · exact .ok _
  · exact .undefined

theorem noThrow_sumScalar : NoThrow (sumScalar x₁ x₂) := noThrow_intOf _

theorem noThrow_mulScalar : NoThrow (mulScalar x₁ x₂) := noThrow_intOf _

theorem noThrow_divScalar : NoThrow (divScalar x₁ x₂) := by
  unfold divScalar
  split
  · exact .undefined
  · exact noThrow_intOf _

theorem noThrow_reduce (grouping : Grouping) (hop : ∀ x₁ x₂, NoThrow (op x₁ x₂)) (init : Scalar) :
    NoThrow (grouping.reduce op init l) := by
  intro e he
  obtain ⟨x₁, x₂, h⟩ := (grouping.reduces op init l).exists_error he
  exact hop x₁ x₂ e h

theorem noThrow_derefIterator (i : ℕ) : NoThrow (derefIterator l i) := by
  unfold derefIterator
  split
  · exact .ok _
  · exact .undefined

theorem noThrow_mapScalar (hop : ∀ x₁ x₂, NoThrow (op x₁ x₂)) (x : Scalar) :
    NoThrow (mapScalar op l x) := .mapM (fun y => hop y x) l

theorem noThrow_zipLists (hop : ∀ x₁ x₂, NoThrow (op x₁ x₂)) : NoThrow (zipLists op l₁ l₂) := by
  unfold zipLists
  split
  · exact .mapM (fun p : Scalar × Scalar => hop p.1 p.2) _
  · exact .aborted

theorem noThrow_dot : NoThrow (dot l₁ l₂) := by
  unfold dot
  split
  · refine .foldlM (fun acc (p : Scalar × Scalar) => ?_) _ _
    exact (noThrow_mulScalar p.1 p.2).bind fun x => noThrow_sumScalar acc x
  · exact .aborted

end Domain

namespace ThreadPool

open Result Domain

/-- What is known of a computation that gives the kind, if it returns. -/
structure HasKind (kind : Kind) (x : Result ExprResult) : Prop where
  noThrow : NoThrow x
  kind : ∀ r, x = .ok r → r.kind = kind

theorem HasKind.scalar {x : Result Scalar} (hx : NoThrow x) :
    HasKind .scalar (x >>= fun y => .ok (ExprResult.scalar y)) where
  noThrow := hx.bind fun y => .ok (ExprResult.scalar y)
  kind r hr := by
    obtain ⟨y, -, hy⟩ := bind_ok_iff.mp hr
    cases hy
    rfl

theorem HasKind.list {x : Result (List Scalar)} (hx : NoThrow x) :
    HasKind .list (x >>= fun l => .ok (ExprResult.list l)) where
  noThrow := hx.bind fun l => .ok (ExprResult.list l)
  kind r hr := by
    obtain ⟨l, -, hl⟩ := bind_ok_iff.mp hr
    cases hl
    rfl

theorem eq_list_of_kind {r : ExprResult} (h : r.kind = .list) : ∃ l, r = .list l := by
  cases r with
  | list l => exact ⟨l, rfl⟩
  | scalar x => cases h

theorem eq_scalar_of_kind {r : ExprResult} (h : r.kind = .scalar) : ∃ x, r = .scalar x := by
  cases r with
  | list l => cases h
  | scalar x => exact ⟨x, rfl⟩

theorem operand_of_kinds {operands : List ExprResult} {k : Kind}
    (h : operands.map ExprResult.kind = [k]) : ∃ r, operands = [r] ∧ r.kind = k := by
  obtain ⟨r, rest, rfl, hr, hrest⟩ := List.map_eq_cons_iff.mp h
  obtain rfl := List.map_eq_nil_iff.mp hrest
  exact ⟨r, rfl, hr⟩

theorem operands_of_kinds {operands : List ExprResult} {k k' : Kind}
    (h : operands.map ExprResult.kind = [k, k']) :
    ∃ r r', operands = [r, r'] ∧ r.kind = k ∧ r'.kind = k' := by
  obtain ⟨r, rest, rfl, hr, hrest⟩ := List.map_eq_cons_iff.mp h
  obtain ⟨r', rfl, hr'⟩ := operand_of_kinds hrest
  exact ⟨r, r', rfl, hr, hr'⟩

/-- **An operator that is given what its signature asks for finds in each `std::variant` the
alternative it asks for.** -/
theorem hasKind_calculateTaskImpl {type : ExprType} {kinds : List Kind} {kind : Kind}
    {operands : List ExprResult} (hsignature : type.signature = some (kinds, kind))
    (hkinds : operands.map ExprResult.kind = kinds) :
    HasKind kind (calculateTaskImpl type operands) := by
  cases type with
  | invalid | list | scalarConst | scalarVar => cases hsignature
  | reMin | reMax | reMul | reSum | reSize =>
    cases hsignature
    obtain ⟨_, rfl, hr⟩ := operand_of_kinds hkinds
    obtain ⟨l, rfl⟩ := eq_list_of_kind hr
    -- the minimum and the maximum, the reductions, the size
    first
    | exact .scalar (noThrow_derefIterator l _)
    | exact .scalar (noThrow_reduce l libstdcxx noThrow_mulScalar 1)
    | exact .scalar (noThrow_reduce l libstdcxx noThrow_sumScalar 0)
    | exact .scalar (.ok (sizeList l))
  | meAdd | meMul | meDiv =>
    cases hsignature
    obtain ⟨_, _, rfl, hr, hr'⟩ := operands_of_kinds hkinds
    obtain ⟨l, rfl⟩ := eq_list_of_kind hr
    obtain ⟨x, rfl⟩ := eq_scalar_of_kind hr'
    first
    | exact .list (noThrow_mapScalar l noThrow_sumScalar x)
    | exact .list (noThrow_mapScalar l noThrow_mulScalar x)
    | exact .list (noThrow_mapScalar l noThrow_divScalar x)
  | loAdd | loMul | loDiv | loDot =>
    cases hsignature
    obtain ⟨_, _, rfl, hr, hr'⟩ := operands_of_kinds hkinds
    obtain ⟨l, rfl⟩ := eq_list_of_kind hr
    obtain ⟨l', rfl⟩ := eq_list_of_kind hr'
    first
    | exact .list (noThrow_zipLists l l' noThrow_sumScalar)
    | exact .list (noThrow_zipLists l l' noThrow_mulScalar)
    | exact .list (noThrow_zipLists l l' noThrow_divScalar)
    | exact .scalar (noThrow_dot l l')
  | soAdd | soMul | soDiv | soMax | soMin =>
    cases hsignature
    obtain ⟨_, _, rfl, hr, hr'⟩ := operands_of_kinds hkinds
    obtain ⟨x, rfl⟩ := eq_scalar_of_kind hr
    obtain ⟨x', rfl⟩ := eq_scalar_of_kind hr'
    first
    | exact .scalar (noThrow_sumScalar x x')
    | exact .scalar (noThrow_mulScalar x x')
    | exact .scalar (noThrow_divScalar x x')
    | exact .scalar (.ok (maxScalar x x'))
    | exact .scalar (.ok (minScalar x x'))

end ThreadPool

/-! ## Well-kinded trees -/

namespace Expr

/-- The tree respects the signatures, has all its operands and no `scalar_const`. -/
inductive WellKinded : Expr → Kind → Prop where
  | reduceExpr {type a} : WellKinded a .list → WellKinded (reduceExpr type (some a)) .scalar
  | mapExpr {type a b} : WellKinded a .list → WellKinded b .scalar →
      WellKinded (mapExpr type (some a) (some b)) .list
  | listOpExpr {type a b} : type ≠ .dot → WellKinded a .list → WellKinded b .list →
      WellKinded (listOpExpr type (some a) (some b)) .list
  | dotExpr {a b} : WellKinded a .list → WellKinded b .list →
      WellKinded (listOpExpr .dot (some a) (some b)) .scalar
  | scalarOpExpr {type a b} : WellKinded a .scalar → WellKinded b .scalar →
      WellKinded (scalarOpExpr type (some a) (some b)) .scalar
  | listExpr {l} : WellKinded (listExpr l) .list
  | scalarVarExpr {x} : WellKinded (scalarVarExpr x) .scalar

/-- An entry of the table is a list where the tree has a list leaf, and a scalar where it has a
variable. -/
def Provided (e : Expr) (staticData : VariableId → Option Field) : Prop :=
  ∀ c ∈ e.postorder,
    (∀ l, c = .listExpr l → ∀ field, staticData l = some field → ∃ xs, field = .list xs) ∧
    ∀ x, c = .scalarVarExpr x → ∀ field, staticData x = some field → ∃ y, field = .scalar y

namespace WellKinded

variable {e : Expr} {k : Kind} {db : Database}

theorem complete (h : WellKinded e k) : e.Complete := by
  induction h with
  | reduceExpr _ iha => exact .reduceExpr iha
  | mapExpr _ _ iha ihb => exact .mapExpr iha ihb
  | listOpExpr _ _ _ iha ihb => exact .listOpExpr iha ihb
  | dotExpr _ _ iha ihb => exact .listOpExpr iha ihb
  | scalarOpExpr _ _ iha ihb => exact .scalarOpExpr iha ihb
  | listExpr => exact .listExpr
  | scalarVarExpr => exact .scalarVarExpr

/-- The operands of an operator are of the kinds in its signature. -/
theorem operator (h : WellKinded e k) (hop : e.operands ≠ []) :
    ∃ kinds, e.getType.signature = some (kinds, k) ∧ List.Forall₂ WellKinded e.operands kinds := by
  cases h with
  | @reduceExpr type a ha =>
    refine ⟨[.list], ?_, .cons ha .nil⟩
    cases type <;> rfl
  | @mapExpr type a b ha hb =>
    refine ⟨[.list, .scalar], ?_, .cons ha (.cons hb .nil)⟩
    cases type <;> rfl
  | @listOpExpr type a b hdot ha hb =>
    refine ⟨[.list, .list], ?_, .cons ha (.cons hb .nil)⟩
    cases type with
    | dot => exact absurd rfl hdot
    | add | mul | div => rfl
  | dotExpr ha hb => exact ⟨[.list, .list], rfl, .cons ha (.cons hb .nil)⟩
  | @scalarOpExpr type a b ha hb =>
    refine ⟨[.scalar, .scalar], ?_, .cons ha (.cons hb .nil)⟩
    cases type <;> rfl
  | listExpr | scalarVarExpr => exact absurd rfl hop

theorem operand (h : WellKinded e k) {c : Expr} (hc : c ∈ e.operands) :
    ∃ k', WellKinded c k' := by
  obtain ⟨kinds, -, hall⟩ := h.operator (List.ne_nil_of_mem hc)
  obtain ⟨i, hi, rfl⟩ := List.mem_iff_getElem.mp hc
  have hi' : i < kinds.length := hall.length_eq ▸ hi
  exact ⟨kinds[i], hall.get hi hi'⟩

/-- The nodes of a well-kinded tree are well-kinded. -/
theorem of_mem_postorder (h : WellKinded e k) : ∀ c ∈ e.postorder, ∃ k', WellKinded c k' := by
  intro c hc
  have hreach := h.complete.reachable c hc
  clear hc
  induction hreach with
  | refl => exact ⟨k, h⟩
  | tail _ hc ih =>
    obtain ⟨k', h'⟩ := ih
    exact h'.operand hc

end WellKinded

/-- The nodes of a node are nodes of the tree. -/
theorem Complete.postorder_subset {e : Expr} (h : e.Complete) :
    ∀ c ∈ e.postorder, c.postorder ⊆ e.postorder := by
  apply h.induct_node (motive := fun e c => c.postorder ⊆ e.postorder)
  · intro e _
    exact List.Subset.refl e.postorder
  · intro e d c he hd hc b hb
    exact he.mem_postorder.mpr (.inl ⟨d, hd, hc hb⟩)

theorem Provided.of_mem {e c : Expr} {staticData : VariableId → Option Field}
    (h : e.Provided staticData) (hcomplete : e.Complete) (hc : c ∈ e.postorder) :
    c.Provided staticData :=
  fun d hd => h d (hcomplete.postorder_subset c hc hd)

theorem Complete.operand_mem_postorder {e c : Expr} (h : e.Complete) (hc : c ∈ e.operands) :
    c ∈ e.postorder :=
  h.mem_postorder.mpr (.inl ⟨c, hc, (h.operand c hc).self_mem_postorder⟩)

variable {db : Database} {e : Expr} {k : Kind} {operands : List ExprResult}

/-- What is read for a leaf is of its kind. -/
theorem WellKinded.eval_leaf (h : WellKinded e k) (hprovided : e.Provided db.staticData)
    (hleaf : e.operands = []) {r : ExprResult} (hr : e.eval (Cluster.start db).read = .ok r) :
    r.kind = k := by
  have hread : ∀ x, (Cluster.start db).read x = .ok r →
      ∃ field, db.staticData x = some field ∧ DatabaseClient.ofReply field = .ok r := by
    intro x hx
    have hx : DatabaseClient.readData db (.identifier x) = .ok r := hx
    rw [DatabaseClient.readData_static] at hx
    cases hfield : db.staticData x with
    | none =>
      rw [hfield] at hx
      cases hx
    | some field =>
      rw [hfield] at hx
      exact ⟨field, rfl, hx⟩
  cases h with
  | reduceExpr | mapExpr | listOpExpr | dotExpr | scalarOpExpr =>
    simp [operands, getLhs, getRhs] at hleaf
  | @listExpr l =>
    obtain ⟨field, hfield, hreply⟩ := hread l hr
    obtain ⟨xs, rfl⟩ :=
      (hprovided _ (Complete.listExpr).self_mem_postorder).1 l rfl field hfield
    cases hreply
    rfl
  | @scalarVarExpr x =>
    obtain ⟨field, hfield, hreply⟩ := hread x hr
    obtain ⟨y, rfl⟩ :=
      (hprovided _ (Complete.scalarVarExpr).self_mem_postorder).2 x rfl field hfield
    cases hreply
    rfl

theorem kinds_of_forall₂ {read : VariableId → Result ExprResult} {cs : List Expr}
    {kinds : List Kind} (hkinds : List.Forall₂ WellKinded cs kinds)
    (hkind : ∀ c ∈ cs, ∀ k, WellKinded c k → ∀ r, c.eval read = .ok r → r.kind = k)
    (hvalues : List.Forall₂ (fun c r => Expr.eval read c = .ok r) cs operands) :
    operands.map ExprResult.kind = kinds := by
  induction hkinds generalizing operands with
  | nil =>
    cases hvalues
    rfl
  | @cons c k cs kinds hc _ ih =>
    cases hvalues with
    | @cons _ r _ rs hr hrs =>
      rw [List.map_cons, hkind c List.mem_cons_self k hc r hr,
        ih (fun c hc => hkind c (List.mem_cons_of_mem _ hc)) hrs]

/-- **What a well-kinded tree evaluates to is of its kind.** -/
theorem WellKinded.eval_kind (h : WellKinded e k) (hprovided : e.Provided db.staticData) :
    ∀ r, e.eval (Cluster.start db).read = .ok r → r.kind = k := by
  have hcomplete := h.complete
  revert k
  refine hcomplete.induct (motive := fun e => e.Provided db.staticData → ∀ {k}, WellKinded e k →
    ∀ r, e.eval (Cluster.start db).read = .ok r → r.kind = k) ?_ hprovided
  intro e he ih hprovided k h r hr
  by_cases hop : e.operands = []
  · exact h.eval_leaf hprovided hop hr
  · obtain ⟨kinds, hsignature, hkinds⟩ := h.operator hop
    rw [he.eval_operator hop, Result.bind_ok_iff] at hr
    obtain ⟨operands, hoperands, hcalculate⟩ := hr
    have hmap : operands.map ExprResult.kind = kinds := by
      refine kinds_of_forall₂ hkinds ?_ (Result.mapM_ok_iff.mp hoperands)
      intro c hc k'
      exact (ih c hc).2 (hprovided.of_mem he (he.operand_mem_postorder hc))
    exact (ThreadPool.hasKind_calculateTaskImpl hsignature hmap).kind r hcalculate

end Expr

/-! ## On the cluster -/

namespace Cluster

/-- The message is one for the operator `e` of the tree: it refers to the operands of `e` from left
to right, one for each kind in the signature. -/
structure TaskOf (request : AstRequest) (p : ProblemId) (t : Task) (e : Expr) (kinds : List Kind)
    (kind : Kind) : Prop where
  mem : e ∈ request.ast.root.postorder
  id : t.id = .mk' p (request.ast.numbering.number e)
  type : ExprType.ofOperationType t.operationType.toNat = e.getType
  signature : e.getType.signature = some (kinds, kind)
  operands : t.operands =
    e.operands.map fun c => request.ast.operand p (request.ast.numbering.number c)
  length : t.operands.length = kinds.length

/-- The operands read for the operator `e`: their values, in order, of the kinds asked for. -/
structure OperandsOf (read : VariableId → Result ExprResult) (e : Expr) (kinds : List Kind)
    (operands : List ExprResult) : Prop where
  front : ∀ lhs, e.getLhs = some lhs → ∃ r, operands.head? = some r ∧ lhs.eval read = .ok r
  back : ∀ rhs, e.getRhs = some rhs → ∃ r, operands.getLast? = some r ∧ rhs.eval read = .ok r
  kinds : operands.map ExprResult.kind = kinds

/-- A job of an operator, wherever it is: once it has read all its operands they are the right ones
and the computation does not throw; the result, and the row written, have the kind. -/
def KindOk (read : VariableId → Result ExprResult) (db : Database) (e : Expr) (kinds : List Kind)
    (kind : Kind) (job : Job) : Prop :=
  match job.stage with
  | .extracting operands => operands.length = job.task.task.operands.length →
    OperandsOf read e kinds operands ∧
      ThreadPool.HasKind kind (ThreadPool.calculate job.task operands)
  | .calculated r => r.kind = kind
  | .written => ∃ r, db.select job.key = some (DatabaseClient.toField r) ∧ r.kind = kind

section Kinds

variable {db : Database} {s : Cluster} {request : AstRequest} {p : ProblemId} {k : Kind}
  {v : TaskDispatch.TaskId} {t : Task} {job : Job} {e : Expr} {kinds : List Kind} {kind : Kind}

/-- The first and the last operand, when an operator has them. -/
theorem OperandsOf.of_forall₂ {read : VariableId → Result ExprResult} {operands : List ExprResult}
    (hvalues : List.Forall₂ (fun c r => Expr.eval read c = .ok r) e.operands operands)
    (hkinds : operands.map ExprResult.kind = kinds) : OperandsOf read e kinds operands where
  front lhs hlhs := by
    rw [Expr.operands, hlhs] at hvalues
    cases hvalues with
    | cons hr _ => exact ⟨_, rfl, hr⟩
  back rhs hrhs := by
    rw [Expr.operands, hrhs] at hvalues
    have hreverse := List.rel_reverse hvalues
    rw [Option.toList_some, List.reverse_append, List.reverse_singleton] at hreverse
    rw [← List.head?_reverse]
    generalize operands.reverse = rs at hreverse ⊢
    cases hreverse with
    | cons hr _ => exact ⟨_, rfl, hr⟩
  kinds := hkinds

/-- An operator of a well-kinded tree, and the request for it. -/
theorem taskOf_taskRequest (hkinded : request.ast.root.WellKinded k)
    (hv : v < request.ast.vertexCount) (hdeps : request.ast.dag.deps v ≠ []) :
    ∃ e kinds kind, request.ast.numbering.records[v]? = some e ∧ e.WellKinded kind ∧
      List.Forall₂ Expr.WellKinded e.operands kinds ∧
      TaskOf request p (request.ast.taskRequest p v) e kinds kind := by
  obtain ⟨e, he⟩ := AST.exists_record hv
  have hrecord : e ∈ request.ast.numbering.records := List.mem_of_getElem? he
  have hmem : e ∈ request.ast.root.postorder := (Numbering.mem_ofList _).mp hrecord
  have hop : e.operands ≠ [] := by
    intro hnil
    rw [AST.deps_of_record he, hnil] at hdeps
    exact hdeps rfl
  obtain ⟨kind, hkind⟩ := hkinded.of_mem_postorder e hmem
  obtain ⟨kinds, hsignature, hkinds⟩ := hkind.operator hop
  refine ⟨e, kinds, kind, he, hkind, hkinds, ?_⟩
  exact
    { mem := hmem
      id := by
        rw [(Numbering.number_eq_iff hrecord).mpr he]
        rfl
      type := AST.ofOperationType_taskRequest.trans (AST.typeAt_of_record he)
      signature := hsignature
      operands := by
        rw [AST.taskRequest, AST.deps_of_record he, List.map_map]
        rfl
      length := by
        rw [AST.taskRequest, List.length_map, AST.deps_of_record he, List.length_map]
        exact hkinds.length_eq }

/-- **What is right is of its kind.** -/
theorem kindOk_of_stageOk (hprovided : request.ast.root.Provided db.staticData)
    (he : request.ast.numbering.records[v]? = some e) (hkind : e.WellKinded kind)
    (hkinds : List.Forall₂ Expr.WellKinded e.operands kinds)
    (htask : job.task.task = request.ast.taskRequest p v)
    (htaskOf : TaskOf request p job.task.task e kinds kind)
    (hok : StageOk (start db).read s.database request p v job.stage) :
    KindOk (start db).read s.database e kinds kind job := by
  have hcomplete : e.Complete := hkind.complete
  have hprovided : e.Provided db.staticData := hprovided.of_mem request.ast.complete htaskOf.mem
  unfold KindOk
  cases hstage : job.stage with
  | extracting operands =>
    -- all operands have been read, so they are the values of the operand trees, in order
    intro hlength
    rw [hstage] at hok
    have hdeps : operands.length = (request.ast.dag.deps v).length := by
      rw [hlength, htask, AST.taskRequest, List.length_map]
    have hvalues : List.Forall₂ (fun c r => Expr.eval (start db).read c = .ok r) e.operands
        operands := by
      apply (AST.forall₂_operands he).mp
      have htake : (request.ast.dag.deps v).take operands.length = request.ast.dag.deps v :=
        List.take_of_length_le hdeps.ge
      exact htake ▸ hok
    have hmap : operands.map ExprResult.kind = kinds := by
      refine Expr.kinds_of_forall₂ hkinds ?_ hvalues
      intro c hc k' hk'
      exact hk'.eval_kind (hprovided.of_mem hcomplete (hcomplete.operand_mem_postorder hc))
    refine ⟨.of_forall₂ hvalues hmap, ?_⟩
    rw [ThreadPool.calculate, htaskOf.type]
    exact ThreadPool.hasKind_calculateTaskImpl htaskOf.signature hmap
  | calculated r =>
    rw [hstage] at hok
    have hvalue : request.ast.valueAt (start db).read v = .ok r := hok
    rw [AST.valueAt_of_record he] at hvalue
    exact hkind.eval_kind hprovided r hvalue
  | written =>
    rw [hstage] at hok
    obtain ⟨r, hvalue, hrow⟩ := hok
    rw [AST.valueAt_of_record he] at hvalue
    refine ⟨r, ?_, hkind.eval_kind hprovided r hvalue⟩
    rw [Job.key, Job.id, htask, UInt32.ofNat_toNat, UInt32.ofNat_toNat]
    exact hrow

/-- A wire id belongs to one problem. -/
theorem problem_eq {q : ProblemId} {request' : AstRequest} (hlt : s.calls.length < 2 ^ 32)
    (hp : s.origin p = some request) (hq : s.origin q = some request')
    (hid : UInt32.ofNat q = UInt32.ofNat p) : q = p ∧ request' = request := by
  have hqp : q = p := by
    have hnat := congrArg UInt32.toNat hid
    rwa [toNat_ofNat_of_lt ((Sound.lt_length hq).trans hlt),
      toNat_ofNat_of_lt ((Sound.lt_length hp).trans hlt)] at hnat
  subst hqp
  exact ⟨rfl, Option.some.inj (hq.symm.trans hp)⟩

end Kinds

/-- **Kind soundness.** Take a problem of any run whose tree is well-kinded, on a store whose
variables have the kinds that the leaves of the tree require. Each task sent for it is a message for
an operator of the tree, with as many operands as the operator takes. A worker that has read them
has the value of `lhs` in front and the value of `rhs` at the back, no `std::get` throws on them,
and neither does the default branch; what it computes and stores is of the kind of the operator, and
so is every row under an operator of the tree. -/
theorem kind_soundness {db : Database} (hempty : db.dynamicData = []) {actions : List Action}
    {s : Cluster} (hrun : Runs step (start db) actions s) (hlt : s.calls.length < 2 ^ 32)
    {p : ProblemId} {request : AstRequest} {kind : Kind} (horigin : s.origin p = some request)
    (hkinded : request.ast.root.WellKinded kind)
    (hprovided : request.ast.root.Provided db.staticData) :
    (∀ t ∈ s.requests, t.id.problemId = .ofNat p →
      ∃ e kinds kind, TaskOf request p t e kinds kind) ∧
    (∀ job ∈ s.jobs, job.id.problemId = .ofNat p → ∃ e kinds kind,
      TaskOf request p job.task.task e kinds kind ∧
        KindOk (start db).read s.database e kinds kind job) ∧
    ∀ e ∈ request.ast.root.postorder, ∀ kinds kind,
      e.getType.signature = some (kinds, kind) → ∀ field,
        s.database.select ⟨.ofNat p, .ofNat (request.ast.numbering.number e)⟩ = some field →
          ∃ r, field = DatabaseClient.toField r ∧ r.kind = kind := by
  have h := Sound.of_runs hrun hlt
  have huntainted : Untainted db p request := untainted_of_nil hempty
  refine ⟨?_, ?_, ?_⟩
  · intro t ht hid
    obtain ⟨q, request', v, hop, rfl⟩ := h.request t ht
    obtain ⟨rfl, rfl⟩ := problem_eq hlt horigin hop.origin_eq hid
    obtain ⟨e, kinds, kind, -, -, -, htaskOf⟩ := taskOf_taskRequest hkinded hop.lt hop.deps
    exact ⟨e, kinds, kind, htaskOf⟩
  · -- the values read so far are right, and what is right is of its kind
    intro job hjob hid
    obtain ⟨q, request', v, hop, htask, hok⟩ := h.job job hjob
    rw [Job.id, htask] at hid
    obtain ⟨rfl, rfl⟩ := problem_eq hlt horigin hop.origin_eq hid
    obtain ⟨e, kinds, kind, he, hkind, hkinds, htaskOf⟩ :=
      taskOf_taskRequest hkinded hop.lt hop.deps
    rw [← htask] at htaskOf
    exact ⟨e, kinds, kind, htaskOf,
      kindOk_of_stageOk hprovided he hkind hkinds htask htaskOf (hok huntainted)⟩
  · -- a row under an operator holds its value
    intro e hmem kinds kind' hsignature field hrow
    have hrecord : e ∈ request.ast.numbering.records := (Numbering.mem_ofList _).mpr hmem
    have he := Numbering.getElem?_number hrecord
    obtain ⟨k, hkind⟩ := hkinded.of_mem_postorder e hmem
    have hop : e.operands ≠ [] := by
      intro hnil
      rw [ExprType.signature_of_isLeaf (hkind.complete.isLeaf_iff.mpr hnil)] at hsignature
      cases hsignature
    obtain ⟨kinds', hsignature', -⟩ := hkind.operator hop
    obtain ⟨-, rfl⟩ := Prod.mk.inj (Option.some.inj (hsignature.symm.trans hsignature'))
    have hdeps : request.ast.dag.deps (request.ast.numbering.number e) ≠ [] := by
      rw [AST.deps_of_record he, Ne, List.map_eq_nil_iff]
      exact hop
    obtain ⟨r, hvalue, rfl⟩ := h.agrees p request horigin huntainted _
      (AST.lt_of_record he) hdeps field hrow
    rw [AST.valueAt_of_record he] at hvalue
    exact ⟨r, rfl, hkind.eval_kind (hprovided.of_mem request.ast.complete hmem) r hvalue⟩

/-- The job for the sum, once it has read the list. -/
def sumJob : Job where
  task := ⟨"worker", ⟨0, 1⟩, 4, [.staticOperand "L"]⟩
  stage := .extracting [.list [1, 2, 3, 4, 5]]

/-- The mean of a list, up to the point where the list has been read for the sum. -/
def sumRead : List Action :=
  [.calculateProblem .mean, .sendComputableTasks, .relay "worker" sumJob.task.task,
    .readOperand { sumJob with stage := .extracting [] }]

/-- The sum of a list of scalars gives a scalar. -/
theorem kind_soundness_mean : ∃ s, Runs step (start numbers) sumRead s ∧ sumJob ∈ s.jobs ∧
    ∃ e kinds kind, TaskOf .mean 0 sumJob.task.task e kinds kind ∧
      KindOk (start numbers).read s.database e kinds kind sumJob := by
  obtain ⟨s, hrun, hjobs, hcalls, horigin⟩ : ∃ s, Runs step (start numbers) sumRead s ∧
      s.jobs = {sumJob} ∧ s.calls.length = 1 ∧ s.origin 0 = some .mean :=
    ⟨_, rfl, rfl, rfl, rfl⟩
  have hlt : s.calls.length < 2 ^ 32 := by simp [hcalls]
  have hjob : sumJob ∈ s.jobs := by simp [hjobs]
  have hkinded : (AstRequest.mean).ast.root.WellKinded .scalar :=
    .scalarOpExpr (.reduceExpr .listExpr) (.reduceExpr .listExpr)
  have hprovided : (AstRequest.mean).ast.root.Provided numbers.staticData := by
    intro c hc
    constructor
    · intro l _ field hfield
      have hfield : (if l = "L" then some (Field.list [1, 2, 3, 4, 5]) else none) = some field :=
        hfield
      split_ifs at hfield
      exact ⟨_, (Option.some.inj hfield).symm⟩
    · rintro x rfl
      simp [AstRequest.mean, AST.mean, Expr.postorder, Expr.postorder?] at hc
  obtain ⟨-, hall, -⟩ := @kind_soundness numbers rfl sumRead s hrun hlt 0 .mean .scalar horigin
    hkinded hprovided
  exact ⟨s, hrun, hjob, hall sumJob hjob rfl⟩

end Cluster
end TaskDispatch
