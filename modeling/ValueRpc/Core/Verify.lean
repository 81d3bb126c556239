/-
  ValueRpc.Core.Verify — checking values against type definitions (`valuerpc/types.go`,
  `valuerpc/verify.go`: `Verify`, `VerifyArgs`, `VerifyParams`, `VerifyArg`, `VerifyParam`).

  The side that sends a value may hold Go nils in it; on the wire a nil is `value.Null`, at
  the top, in lists and in maps (`wire`), and `Map.Get` answers `value.Null` for a key that
  is not there. The verifiers tell an absent value in three ways: nil or of kind NULL (for
  Void and the containers), `value.Null` by identity (for the params of a map), and nil only
  (`VerifyArg`, `VerifyParam`). In a map the first two make up for the third, since what is
  Null is not passed on.

  - `verify_wire_iff`: the verdict is the same on both sides of the wire, and absent params are
    checked like an empty map, exactly when no nil decides it (`Plain`): at an optional
    position of another kind it passes as a nil only, at a required one of kind NULL as a Null.
  - `optional_rejects_null`: as it is, an optional argument that is nil passes at the sender
    and is turned away at the receiver, and so is a map of optional params left out.
-/

import ValueRpc.Core.Message

namespace ValueRpc.Core.Verify

inductive Kind where
  | null
  | bool
  | number
  | string
  | list
  | map
  | other (n : Nat)
  deriving DecidableEq, Repr

inductive Val where
  | nil
  | null
  | bool (b : Bool)
  | number (n : Number)
  | string (s : Bytes)
  | list (vs : List Val)
  | map (entries : List (String × Val))
  | other (kind : Nat) (data : Bytes)

namespace Val

/-- `Kind()`; a Go nil has no methods. -/
def kind : Val → Option Kind
  | nil => none
  | null => some .null
  | bool _ => some .bool
  | number _ => some .number
  | string _ => some .string
  | list _ => some .list
  | map _ => some .map
  | other kind _ => some (.other kind)

mutual

def wire : Val → Val
  | nil => null
  | list vs => list (wireList vs)
  | map entries => map (wireEntries entries)
  | v => v

def wireList : List Val → List Val
  | [] => []
  | v :: vs => v.wire :: wireList vs

def wireEntries : List (String × Val) → List (String × Val)
  | [] => []
  | (name, v) :: entries => (name, v.wire) :: wireEntries entries

end

def get (entries : List (String × Val)) (name : String) : Val := (entries.lookup name).getD null

end Val

/-! ## Type definitions -/

structure ArgDef where
  kind : Kind
  required : Bool
  deriving DecidableEq, Repr

structure ParamDef where
  name : String
  kind : Kind
  required : Bool
  deriving DecidableEq, Repr

inductive TypeDef where
  | any
  | void
  | arg (argDef : ArgDef)
  | args (list : List ArgDef)
  | params (map : List ParamDef)
  /-- A `UserTypeDef` that is none of the above, or nil. -/
  | other
  deriving DecidableEq, Repr

def stringOpt : ArgDef := ⟨.string, false⟩

/-- `VerifyArg` and `VerifyParam`: nil passes when nothing is required, everything else by its kind. -/
def verifyMember (v : Val) (kind : Kind) (required : Bool) : Bool :=
  match v with
  | .nil => !required
  | v => v.kind == some kind

def verifyArg (arg : Val) (d : ArgDef) : Bool := verifyMember arg d.kind d.required

def verifyParam (value : Val) (d : ParamDef) : Bool := verifyMember value d.kind d.required

def verifyArgs (args : Val) (argsDef : List ArgDef) : Bool :=
  match args with
  | .nil => argsDef.isEmpty
  | .null => argsDef.isEmpty
  | .list vs => vs.length == argsDef.length && (vs.zip argsDef).all fun x => verifyArg x.1 x.2
  | _ => false

/-- One param of a map: Null is absent. -/
def verifyEntry (val : Val) (d : ParamDef) : Bool :=
  match val with
  | .null => !d.required
  | val => verifyParam val d

def verifyParams (args : Val) (paramsDef : List ParamDef) : Bool :=
  match args with
  | .nil => paramsDef.isEmpty
  | .null => paramsDef.isEmpty
  | .map entries => paramsDef.all fun d => verifyEntry (Val.get entries d.name) d
  | _ => false

def verify (args : Val) : TypeDef → Bool
  | .any => true
  | .void =>
    match args with
    | .nil => true
    | .null => true
    | .list vs => vs.isEmpty
    | .map entries => entries.isEmpty
    | _ => false
  | .arg d => verifyArg args d
  | .args ds => verifyArgs args ds
  | .params ds => verifyParams args ds
  | .other => false

/-! ## Across the wire -/

theorem wireList_eq (vs : List Val) : Val.wireList vs = vs.map Val.wire := by
  induction vs with
  | nil => rfl
  | cons v vs ih => simp only [Val.wireList, List.map_cons, ih]

theorem isEmpty_wireEntries (entries : List (String × Val)) :
    (Val.wireEntries entries).isEmpty = entries.isEmpty := by
  cases entries with
  | nil => rfl
  | cons e entries => rfl

theorem lookup_wireEntries (entries : List (String × Val)) (name : String) :
    (Val.wireEntries entries).lookup name = (entries.lookup name).map Val.wire := by
  induction entries with
  | nil => rfl
  | cons e entries ih =>
    obtain ⟨key, v⟩ := e
    simp only [Val.wireEntries, List.lookup_cons]
    split
    · rfl
    · exact ih

/-- What is not there is Null on both sides. -/
theorem get_wire (entries : List (String × Val)) (name : String) :
    Val.get (Val.wireEntries entries) name = (Val.get entries name).wire := by
  simp only [Val.get, lookup_wireEntries]
  cases entries.lookup name with
  | none => rfl
  | some v => rfl

theorem kind_wire {v : Val} (h : v ≠ .nil) : v.wire ≠ .nil ∧ v.wire.kind = v.kind := by
  cases v with
  | nil => exact absurd rfl h
  | _ => exact ⟨nofun, rfl⟩

theorem verifyMember_ne {v : Val} (h : v ≠ .nil) (kind : Kind) (required : Bool) :
    verifyMember v kind required = (v.kind == some kind) := by
  cases v with
  | nil => exact absurd rfl h
  | _ => rfl

/-- A position of an argument and what it is checked against: it is turned away as it was sent
    and as it arrives. -/
def Rejected (x : Val × ArgDef) : Prop :=
  (x.1 = .nil ∧ x.2.required = true ∧ x.2.kind ≠ .null) ∨ (x.1 ≠ .nil ∧ x.1.kind ≠ some x.2.kind)

/-- A nil that passes where nothing is required, and is a Null of the wrong kind when it arrives. -/
def Lost (x : Val × ArgDef) : Prop := x.1 = .nil ∧ x.2.required = false ∧ x.2.kind ≠ .null

/-- A nil where a Null is required: it only passes when it arrives. -/
def Gained (x : Val × ArgDef) : Prop := x.1 = .nil ∧ x.2.required = true ∧ x.2.kind = .null

theorem verifyArg_sent (x : Val × ArgDef) : verifyArg x.1 x.2 = true ↔ ¬ Rejected x ∧ ¬ Gained x := by
  obtain ⟨v, kind, required⟩ := x
  by_cases hv : v = .nil
  · subst hv
    cases required with
    | true =>
      by_cases hk : kind = .null
      · simp [verifyArg, verifyMember, Rejected, Gained, hk]
      · simp [verifyArg, verifyMember, Rejected, Gained, hk]
    | false => simp [verifyArg, verifyMember, Rejected, Gained]
  · rw [verifyArg, verifyMember_ne hv]
    simp [Rejected, Gained, hv]

theorem verifyArg_arrived (x : Val × ArgDef) : verifyArg x.1.wire x.2 = true ↔ ¬ Rejected x ∧ ¬ Lost x := by
  obtain ⟨v, kind, required⟩ := x
  by_cases hv : v = .nil
  · subst hv
    have hnull : verifyArg (Val.wire .nil) ⟨kind, required⟩ = (some Kind.null == some kind) := rfl
    rw [hnull]
    by_cases hk : kind = .null
    · simp [Rejected, Lost, hk]
    · have hk' : ¬ Kind.null = kind := fun h => hk h.symm
      cases required with
      | true => simp [Rejected, hk, hk']
      | false => simp [Rejected, Lost, hk, hk']
  · obtain ⟨hn, hk⟩ := kind_wire hv
    rw [verifyArg, verifyMember_ne hn, hk]
    simp [Rejected, Lost, hv]

/-- A check that turns away two sorts of positions passes them all when there is none of either. -/
theorem all_iff {check : Val × ArgDef → Bool} {P Q : Val × ArgDef → Prop}
    (h : ∀ x, check x = true ↔ ¬ P x ∧ ¬ Q x) (xs : List (Val × ArgDef)) :
    xs.all check = true ↔ ¬ (∃ x ∈ xs, P x) ∧ ¬ ∃ x ∈ xs, Q x := by
  rw [List.all_eq_true]
  constructor
  · intro hall
    refine ⟨?_, ?_⟩
    · rintro ⟨x, hx, hp⟩
      exact ((h x).mp (hall x hx)).1 hp
    · rintro ⟨x, hx, hq⟩
      exact ((h x).mp (hall x hx)).2 hq
  · rintro ⟨hp, hq⟩ x hx
    exact (h x).mpr ⟨fun hpx => hp ⟨x, hx, hpx⟩, fun hqx => hq ⟨x, hx, hqx⟩⟩

/-- All positions get the same answer sent and arrived, unless none is turned away and nils are
    only lost or only gained. -/
theorem all_positions (xs : List (Val × ArgDef)) :
    (xs.all (fun x => verifyArg x.1.wire x.2) = xs.all fun x => verifyArg x.1 x.2) ↔
      (∃ x ∈ xs, Rejected x) ∨ ((∃ x ∈ xs, Lost x) ↔ ∃ x ∈ xs, Gained x) := by
  rw [Bool.eq_iff_iff, all_iff verifyArg_arrived, all_iff verifyArg_sent]
  by_cases hr : ∃ x ∈ xs, Rejected x
  · simp [hr]
  · simp only [hr, not_false_eq_true, true_and, false_or]
    exact not_iff_not

/-- A param of a map needs no condition: Null is taken for absent before it is checked. -/
theorem verifyEntry_wire (v : Val) (d : ParamDef) : verifyEntry v.wire d = verifyEntry v d := by
  cases v with
  | nil => rfl
  | _ => rfl

theorem zip_wireList (vs : List Val) (ds : List ArgDef) :
    ((Val.wireList vs).zip ds).all (fun x => verifyArg x.1 x.2) = (vs.zip ds).all fun x => verifyArg x.1.wire x.2 := by
  rw [wireList_eq, List.zip_map_left, List.all_map]
  rfl

theorem verifyParams_wire (v : Val) (ds : List ParamDef) : verifyParams v.wire ds = verifyParams v ds := by
  cases v with
  | map entries =>
    show (ds.all fun d => verifyEntry (Val.get (Val.wireEntries entries) d.name) d) = _
    simp only [get_wire, verifyEntry_wire]
    rfl
  | _ => rfl

theorem verifyVoid_wire (v : Val) : verify v.wire .void = verify v .void := by
  cases v with
  | list vs =>
    show (Val.wireList vs).isEmpty = vs.isEmpty
    rw [wireList_eq, List.isEmpty_map]
  | map entries => exact isEmpty_wireEntries entries
  | _ => rfl

/-- Left-out params are like an empty map when there are none, or one is required. -/
theorem verifyParams_absent {v : Val} (hv : v = .nil ∨ v = .null) (ds : List ParamDef) :
    verifyParams v ds = verifyParams (.map []) ds ↔ ds = [] ∨ ∃ d ∈ ds, d.required = true := by
  have hempty : verifyParams v ds = ds.isEmpty := by rcases hv with rfl | rfl <;> rfl
  have hmap : verifyParams (.map []) ds = ds.all fun d => !d.required := rfl
  rw [hempty, hmap]
  cases ds with
  | nil => simp
  | cons d ds =>
    have hne : (d :: ds).isEmpty = false := rfl
    rw [hne, eq_comm, List.all_eq_false]
    simp

def TypeDef.positions (v : Val) : TypeDef → List (Val × ArgDef)
  | .arg d => [(v, d)]
  | .args ds =>
    match v with
    | .list vs => if vs.length = ds.length then vs.zip ds else []
    | _ => []
  | _ => []

/-- No nil decides the verdict: a position is turned away either way, or nils are lost and gained
    or neither; and params are not left out where there are some and all are optional. -/
def TypeDef.Plain (typeDef : TypeDef) (v : Val) : Prop :=
  ((∃ x ∈ typeDef.positions v, Rejected x) ∨
    ((∃ x ∈ typeDef.positions v, Lost x) ↔ ∃ x ∈ typeDef.positions v, Gained x)) ∧
    ∀ ds, typeDef = .params ds → v = .nil ∨ v = .null → ds = [] ∨ ∃ d ∈ ds, d.required = true

theorem positions_nil {typeDef : TypeDef} {v : Val} (h : typeDef.positions v = [])
    (heq : verify v.wire typeDef = verify v typeDef) :
    verify v.wire typeDef = verify v typeDef ↔
      (∃ x ∈ typeDef.positions v, Rejected x) ∨
        ((∃ x ∈ typeDef.positions v, Lost x) ↔ ∃ x ∈ typeDef.positions v, Gained x) := by
  rw [h]
  exact ⟨fun _ => .inr (by simp), fun _ => heq⟩

/-- The verdicts on both sides of the wire. -/
theorem verdicts (typeDef : TypeDef) (v : Val) : verify v.wire typeDef = verify v typeDef ↔
    (∃ x ∈ typeDef.positions v, Rejected x) ∨
      ((∃ x ∈ typeDef.positions v, Lost x) ↔ ∃ x ∈ typeDef.positions v, Gained x) := by
  cases typeDef with
  | any => exact positions_nil rfl rfl
  | void => exact positions_nil rfl (verifyVoid_wire v)
  | arg d =>
    have h := all_positions [(v, d)]
    simp only [List.all_cons, List.all_nil, Bool.and_true] at h
    exact h
  | args ds =>
    cases v with
    | list vs =>
      have hwire : verify (Val.wire (.list vs)) (.args ds) =
          (vs.length == ds.length && (vs.zip ds).all fun x => verifyArg x.1.wire x.2) := by
        show ((Val.wireList vs).length == ds.length && ((Val.wireList vs).zip ds).all fun x => verifyArg x.1 x.2) = _
        rw [zip_wireList, wireList_eq, List.length_map]
      have hsent : verify (.list vs) (.args ds) = (vs.length == ds.length && (vs.zip ds).all fun x =>
        verifyArg x.1 x.2) := rfl
      by_cases hlen : vs.length = ds.length
      · have hpos : (TypeDef.args ds).positions (.list vs) = vs.zip ds := if_pos hlen
        rw [hwire, hsent, hpos, beq_iff_eq.mpr hlen, Bool.true_and, Bool.true_and]
        exact all_positions _
      · have hpos : (TypeDef.args ds).positions (.list vs) = [] := if_neg hlen
        refine positions_nil hpos ?_
        rw [hwire, hsent, beq_eq_false_iff_ne.mpr hlen, Bool.false_and, Bool.false_and]
    | _ => exact positions_nil rfl rfl
  | params ds => exact positions_nil rfl (verifyParams_wire v ds)
  | other => exact positions_nil rfl rfl

theorem verify_wire_iff (typeDef : TypeDef) (v : Val) :
    (verify v.wire typeDef = verify v typeDef ∧
      ∀ ds, typeDef = .params ds → v = .nil ∨ v = .null → verify v typeDef = verify (.map []) typeDef) ↔
        typeDef.Plain v := by
  refine and_congr (verdicts typeDef v) (forall₂_congr fun ds hd => forall_congr' fun hv => ?_)
  subst hd
  exact verifyParams_absent hv ds

def nick : ParamDef := ⟨"nick", .string, false⟩

theorem optional_rejects_null :
    (verify .nil (.arg stringOpt) = true ∧ verify (Val.wire .nil) (.arg stringOpt) = false) ∧
    (verify (.list [.nil]) (.args [stringOpt]) = true ∧ verify (Val.wire (.list [.nil])) (.args [stringOpt]) = false) ∧
    (verify (.map []) (.params [nick]) = true ∧ verify .nil (.params [nick]) = false ∧
      verify .null (.params [nick]) = false) := by
  decide

end ValueRpc.Core.Verify
