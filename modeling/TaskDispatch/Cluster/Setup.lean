import Mathlib
import TaskDispatch.Cluster.Kinds

/-!
# `setup_database.py`: where the variables come from

The script makes the two tables, if they are not there, and puts what is in `data.json` into
`static_data`, in one transaction. A variable gets a scalar if its name is in lower case, and else a
list. `run_iff` says when that succeeds, and what is read from the store afterwards; `provided_iff`,
for which trees the variables then have the kinds that the leaves require.
-/

set_option autoImplicit false

namespace TaskDispatch.SetupDatabase

open Proto

/-! ## `data.json` -/

/-- What `json.load` makes of a value. -/
inductive Value where
  | none
  | bool (b : Bool)
  | int (z : ℤ)
  | float (x : ℚ)
  | str (s : String)
  | list (elements : List Value)
  | dict (items : List (String × Value))

/-- `var_to_value`, a `dict`: no name is there twice. -/
structure VarToValue where
  items : List (VariableId × Value)
  nodup : (items.map (·.1)).Nodup := by decide

inductive Raised where
  | typeError
  | valueError
  | integrityError
  deriving DecidableEq, Repr

/-- What is assigned to an `int32`, or appended to a list of these. A `bool` is an `int`. -/
def Value.toInt32 : Value → Except Raised Scalar
  | .int z => if -2 ^ 31 ≤ z ∧ z < 2 ^ 31 then .ok (.ofInt z) else .error .valueError
  | .bool b => .ok (if b then 1 else 0)
  | .none | .float _ | .str _ | .list _ | .dict _ => .error .typeError

/-- `for el in value`: a string is gone through by characters, and a `dict` by names. -/
def Value.elements : Value → Except Raised (List Value)
  | .list elements => .ok elements
  | .str s => .ok (s.toList.map fun c => .str (String.singleton c))
  | .dict items => .ok (items.map fun item => .str item.1)
  | .none | .bool _ | .int _ | .float _ => .error .typeError

/-! ## The script -/

section Script

variable (islower : VariableId → Bool)

/-- The field for a variable. `islower` is the method of `str`. -/
def buildField (var : VariableId) (value : Value) : Except Raised Field :=
  if islower var then do
    let value ← value.toInt32
    .ok (.scalar value)
  else do
    let elements ← value.elements
    let values ← elements.mapM Value.toInt32
    .ok (.list values)

/-- `INSERT INTO static_data`, of which `identifier` is the primary key -/
def insertStaticData (db : Database) (var : VariableId) (field : Field) :
    Except Raised Database :=
  match db.staticData var with
  | some _ => .error .integrityError
  | none => .ok { db with
      staticData := fun identifier => if identifier = var then some field
        else db.staticData identifier }

/-- One round of the loop -/
def insertItem (db : Database) (item : VariableId × Value) : Except Raised Database := do
  let field ← buildField islower item.1 item.2
  insertStaticData db item.1 field

/-- The script, on tables that are there already. What it raises leaves the `with` block, which
then rolls back. -/
def run (db : Database) (varToValue : VarToValue) : Option Raised × Database :=
  match varToValue.items.foldlM (insertItem islower) db with
  | .ok db' => (none, db')
  | .error raised => (some raised, db)

end Script

/-! ## What one round does -/

section Rounds

variable {islower : VariableId → Bool} {db db' : Database} {var : VariableId} {value : Value}
  {field : Field} {items : List (VariableId × Value)} {item : VariableId × Value}

theorem bind_eq_ok {α β : Type} {x : Except Raised α} {f : α → Except Raised β} {b : β} :
    x >>= f = .ok b ↔ ∃ a, x = .ok a ∧ f a = .ok b := by
  cases x <;> simp [bind, Except.bind]

/-- A field is set, to a scalar where the name is in lower case, and else to a list. -/
theorem exists_toField (h : buildField islower var value = .ok field) : ∃ r,
    field = DatabaseClient.toField r ∧ (islower var = true ↔ ∃ x, r = .scalar x) := by
  unfold buildField at h
  split_ifs at h with hlower
  · obtain ⟨x, -, hfield⟩ := bind_eq_ok.mp h
    obtain rfl := Except.ok.inj hfield
    exact ⟨.scalar x, rfl, by simp [hlower]⟩
  · obtain ⟨_, -, h⟩ := bind_eq_ok.mp h
    obtain ⟨xs, -, hfield⟩ := bind_eq_ok.mp h
    obtain rfl := Except.ok.inj hfield
    exact ⟨.list xs, rfl, by simp [hlower]⟩

theorem insertStaticData_eq_ok : insertStaticData db var field = .ok db' ↔
    db.staticData var = none ∧ db' = { db with
      staticData := fun identifier => if identifier = var then some field
        else db.staticData identifier } := by
  unfold insertStaticData
  cases db.staticData var <;> simp [eq_comm (a := db')]

theorem insertItem_eq_ok : insertItem islower db item = .ok db' ↔
    ∃ field, buildField islower item.1 item.2 = .ok field ∧ db.staticData item.1 = none ∧
      db' = { db with
        staticData := fun identifier => if identifier = item.1 then some field
          else db.staticData identifier } := by
  simp only [insertItem, bind_eq_ok, insertStaticData_eq_ok]

/-! ## What the loop does -/

theorem ne_of_notMem (hnotMem : item.1 ∉ items.map (·.1)) {other : VariableId × Value}
    (hother : other ∈ items) : other.1 ≠ item.1 :=
  fun heq => hnotMem (List.mem_map.mpr ⟨other, hother, heq⟩)

/-- Every value fits, and no name is taken. -/
def Fits (islower : VariableId → Bool) (db : Database) (items : List (VariableId × Value)) : Prop :=
  ∀ item ∈ items, (∃ field, buildField islower item.1 item.2 = .ok field) ∧
    db.staticData item.1 = none

/-- The loop gets through if every value fits and no name is taken: the names are different, so that
no round gets in the way of another. -/
theorem exists_foldlM (hnodup : (items.map (·.1)).Nodup) (h : Fits islower db items) :
    ∃ db', items.foldlM (insertItem islower) db = .ok db' := by
  induction items generalizing db with
  | nil => exact ⟨db, rfl⟩
  | cons item items ih =>
    obtain ⟨hnotMem, hnodup⟩ := List.nodup_cons.mp hnodup
    obtain ⟨⟨field, hfield⟩, hnone⟩ := h item List.mem_cons_self
    have hinsert := insertItem_eq_ok.mpr ⟨field, hfield, hnone, rfl⟩
    rw [List.foldlM_cons, hinsert]
    refine ih hnodup ?_
    intro other hother
    obtain ⟨hfits, hnone'⟩ := h other (List.mem_cons_of_mem _ hother)
    exact ⟨hfits, by simp only [if_neg (ne_of_notMem hnotMem hother), hnone']⟩

/-- What is in the tables when it has got through. -/
structure Loaded (islower : VariableId → Bool) (db : Database)
    (items : List (VariableId × Value)) (db' : Database) : Prop where
  fits : Fits islower db items
  dynamicData_eq : db'.dynamicData = db.dynamicData
  item : ∀ item ∈ items, ∃ field, buildField islower item.1 item.2 = .ok field ∧
    db'.staticData item.1 = some field
  other : ∀ var, var ∉ items.map (·.1) → db'.staticData var = db.staticData var

theorem Loaded.of_foldlM (hnodup : (items.map (·.1)).Nodup)
    (h : items.foldlM (insertItem islower) db = .ok db') : Loaded islower db items db' := by
  induction items generalizing db with
  | nil =>
    obtain rfl := Except.ok.inj h
    exact ⟨by simp [Fits], rfl, by simp, fun _ _ => rfl⟩
  | cons item items ih =>
    obtain ⟨hnotMem, hnodup⟩ := List.nodup_cons.mp hnodup
    rw [List.foldlM_cons, bind_eq_ok] at h
    obtain ⟨db₁, hinsert, hrest⟩ := h
    obtain ⟨field, hfield, hnone, rfl⟩ := insertItem_eq_ok.mp hinsert
    have hloaded := ih hnodup hrest
    refine ⟨?_, hloaded.dynamicData_eq, ?_, ?_⟩
    · intro other hother
      rcases List.mem_cons.mp hother with rfl | hother
      · exact ⟨⟨field, hfield⟩, hnone⟩
      · obtain ⟨hfits, hnone'⟩ := hloaded.fits other hother
        simp only [if_neg (ne_of_notMem hnotMem hother)] at hnone'
        exact ⟨hfits, hnone'⟩
    · intro other hother
      rcases List.mem_cons.mp hother with rfl | hother
      · -- the rounds that follow are for other names
        refine ⟨field, hfield, ?_⟩
        rw [hloaded.other _ hnotMem]
        exact if_pos rfl
      · exact hloaded.item other hother
    · intro var hvar
      rw [List.map_cons, List.mem_cons, not_or] at hvar
      rw [hloaded.other var hvar.2]
      exact if_neg hvar.1

/-- What a name has got. -/
theorem Loaded.stored (h : Loaded islower db items db') (hitem : item ∈ items) : ∃ r,
    buildField islower item.1 item.2 = .ok (DatabaseClient.toField r) ∧
      db'.staticData item.1 = some (DatabaseClient.toField r) ∧
      (islower item.1 = true ↔ ∃ x, r = .scalar x) := by
  obtain ⟨field, hfield, hstored⟩ := h.item item hitem
  obtain ⟨r, rfl, hkind⟩ := exists_toField hfield
  exact ⟨r, hfield, hstored, hkind⟩

/-- In a store that was empty, nothing else has got anything. -/
theorem Loaded.exists_item (h : Loaded islower (.setup fun _ => none) items db')
    (hstored : db'.staticData var = some field) : ∃ item ∈ items, item.1 = var ∧ ∃ r,
      field = DatabaseClient.toField r ∧ (islower var = true ↔ ∃ x, r = .scalar x) := by
  have hvar : var ∈ items.map (·.1) := by
    by_contra hnone
    rw [h.other var hnone] at hstored
    cases hstored
  obtain ⟨item, hitem, rfl⟩ := List.mem_map.mp hvar
  obtain ⟨r, -, hstored', hkind⟩ := h.stored hitem
  exact ⟨item, hitem, rfl, r, Option.some.inj (hstored.symm.trans hstored'), hkind⟩

end Rounds

/-! ## Results -/

section Results

variable {islower : VariableId → Bool} {db : Database} {varToValue : VarToValue}

theorem Loaded.of_run (h : (run islower db varToValue).1 = none) :
    Loaded islower db varToValue.items (run islower db varToValue).2 := by
  unfold run at h ⊢
  cases hloop : varToValue.items.foldlM (insertItem islower) db with
  | ok db' => exact .of_foldlM varToValue.nodup hloop
  | error raised =>
    rw [hloop] at h
    cases h

theorem run_eq_none_iff :
    (run islower db varToValue).1 = none ↔ Fits islower db varToValue.items := by
  constructor
  · exact fun h => (Loaded.of_run h).fits
  · intro h
    obtain ⟨db', hloop⟩ := exists_foldlM varToValue.nodup h
    rw [run, hloop]

theorem run_snd_of_ne_none (h : (run islower db varToValue).1 ≠ none) :
    (run islower db varToValue).2 = db := by
  unfold run at h ⊢
  cases hloop : varToValue.items.foldlM (insertItem islower) db with
  | ok db' =>
    rw [hloop] at h
    exact absurd rfl h
  | error raised => rfl

/-- A name that is in the store already stops the script, and nothing is changed. -/
theorem run_of_mem {identifier : VariableId} (hmem : identifier ∈ varToValue.items.map (·.1))
    (hstored : db.staticData identifier ≠ none) :
    (run islower db varToValue).1 ≠ none ∧ (run islower db varToValue).2 = db := by
  have hraised : (run islower db varToValue).1 ≠ none := by
    intro h
    obtain ⟨item, hitem, rfl⟩ := List.mem_map.mp hmem
    exact hstored (run_eq_none_iff.mp h item hitem).2
  exact ⟨hraised, run_snd_of_ne_none hraised⟩

end Results

/-- **What the script does**, whatever was in the tables and in `data.json`. It gets through exactly
if every value fits and no name is taken, and otherwise leaves the tables as they were. If it gets
through, a client reads for each name the value in `data.json`, a scalar exactly if the name is in
lower case, and for all others what it read before; the results are as they were; and the script
does not get through again with any of the names. -/
theorem run_iff (islower : VariableId → Bool) (db : Database) (varToValue : VarToValue) :
    ((run islower db varToValue).1 = none ↔ ∀ item ∈ varToValue.items,
      (∃ field, buildField islower item.1 item.2 = .ok field) ∧ db.staticData item.1 = none) ∧
    ((run islower db varToValue).1 ≠ none → (run islower db varToValue).2 = db) ∧
    ((run islower db varToValue).1 = none →
      (∀ item ∈ varToValue.items, ∃ r,
        DatabaseClient.readData (run islower db varToValue).2 (.identifier item.1) = .ok r ∧
        buildField islower item.1 item.2 = .ok (DatabaseClient.toField r) ∧
        (islower item.1 = true ↔ ∃ x, r = .scalar x)) ∧
      (∀ var, var ∉ varToValue.items.map (·.1) →
        DatabaseClient.readData (run islower db varToValue).2 (.identifier var) =
          DatabaseClient.readData db (.identifier var)) ∧
      (run islower db varToValue).2.dynamicData = db.dynamicData ∧
      ∀ again : VarToValue, (∃ var ∈ varToValue.items.map (·.1), var ∈ again.items.map (·.1)) →
        (run islower (run islower db varToValue).2 again).1 ≠ none ∧
          (run islower (run islower db varToValue).2 again).2 =
            (run islower db varToValue).2) := by
  refine ⟨run_eq_none_iff, run_snd_of_ne_none, ?_⟩
  intro h
  have hloaded := Loaded.of_run h
  refine ⟨?_, ?_, hloaded.dynamicData_eq, ?_⟩
  · intro item hitem
    obtain ⟨r, hfield, hstored, hkind⟩ := hloaded.stored hitem
    refine ⟨r, ?_, hfield, hkind⟩
    rw [DatabaseClient.readData_static, hstored]
    exact DatabaseClient.ofReply_toField r
  · intro var hvar
    rw [DatabaseClient.readData_static, DatabaseClient.readData_static, hloaded.other var hvar]
  · rintro again ⟨var, hvar, hagain⟩
    obtain ⟨item, hitem, rfl⟩ := List.mem_map.mp hvar
    obtain ⟨r, -, hstored, -⟩ := hloaded.stored hitem
    exact run_of_mem hagain (by rw [hstored]; exact Option.some_ne_none _)

/-- **For which trees the variables are of the right kinds**, after the script has set up a store:
for those in which no list has a name that is there and in lower case, and no scalar one that is
there and not in lower case. -/
theorem provided_iff {islower : VariableId → Bool} {varToValue : VarToValue} {db : Database}
    (hrun : run islower (.setup fun _ => none) varToValue = (none, db)) (e : Expr) :
    e.Provided db.staticData ↔ ∀ c ∈ e.postorder, ∀ item ∈ varToValue.items,
      (c = .listExpr item.1 → islower item.1 = false) ∧
      (c = .scalarVarExpr item.1 → islower item.1 = true) := by
  have hloaded : Loaded islower (.setup fun _ => none) varToValue.items db := by
    have h := Loaded.of_run (congrArg Prod.fst hrun)
    rwa [hrun] at h
  constructor
  · intro hprovided c hc item hitem
    obtain ⟨r, -, hstored, hkind⟩ := hloaded.stored hitem
    obtain ⟨hlist, hscalar⟩ := hprovided c hc
    constructor
    · intro heq
      obtain ⟨xs, hxs⟩ := hlist item.1 heq _ hstored
      cases r with
      | list values => simpa using hkind
      | scalar x => cases hxs
    · intro heq
      obtain ⟨y, hy⟩ := hscalar item.1 heq _ hstored
      cases r with
      | list values => cases hy
      | scalar x => exact hkind.mpr ⟨x, rfl⟩
  · intro hnames c hc
    constructor
    · intro l hl field hstored
      obtain ⟨item, hitem, rfl, r, rfl, hkind⟩ := hloaded.exists_item hstored
      have hlower := (hnames c hc item hitem).1 hl
      cases r with
      | list values => exact ⟨values, rfl⟩
      | scalar x => simp [hlower] at hkind
    · intro x hx field hstored
      obtain ⟨item, hitem, rfl, r, rfl, hkind⟩ := hloaded.exists_item hstored
      obtain ⟨y, rfl⟩ := hkind.mp ((hnames c hc item hitem).2 hx)
      exact ⟨y, rfl⟩

/-- The file of the repository -/
def data : VarToValue where
  items := [("x", .int 420), ("L", .list [.int 1, .int 2, .int 3, .int 4, .int 5]),
    ("K", .list [.int (-6), .int (-7), .int (-11), .int (-9), .int (-10)])]

/-- The variables of that file are right for the mean of `L`, and not for that of `x`. -/
theorem provided_iff_data : ∃ db,
    run (fun var => var = "x") (.setup fun _ => none) data = (none, db) ∧
    (AST.mean "L").root.Provided db.staticData ∧ ¬(AST.mean "x").root.Provided db.staticData := by
  obtain ⟨db, hrun⟩ : ∃ db,
      run (fun var => var = "x") (.setup fun _ => none) data = (none, db) := ⟨_, rfl⟩
  refine ⟨db, hrun, (provided_iff hrun _).mpr ?_, ?_⟩
  · simp [AST.mean, Expr.postorder, Expr.postorder?, data]
  · intro hprovided
    have hleaf : .listExpr "x" ∈ (AST.mean "x").root.postorder := by
      simp [AST.mean, Expr.postorder, Expr.postorder?]
    have hitem : ("x", .int 420) ∈ data.items := by simp [data]
    have hlower := ((provided_iff hrun _).mp hprovided _ hleaf _ hitem).1 rfl
    cases hlower

end TaskDispatch.SetupDatabase
