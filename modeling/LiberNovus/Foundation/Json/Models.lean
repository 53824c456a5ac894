import LiberNovus.Foundation.Json.Fields

/-! Models that are validated from JSON values and dumped to them again: texts, numbers between
bounds, lists, and objects that forbid the members they do not know. An invalid value is told all
its errors, each with the path to where it is.

A model carries its law: what has been read is read again from its dump, and is the same. Objects
are put together from their fields, so that this has to be shown for no object by itself. -/

namespace LiberNovus.Json

/-! ### Errors -/

inductive Loc where
  | field (name : Str)
  | item (i : ℕ)
  deriving DecidableEq, Repr

abbrev Errors : Type := List (List Loc × FieldError)

section Errors

variable {α β : Type}

/-- The error of a value itself. -/
def here (x : Except FieldError α) : Except Errors α := x.mapError fun e => [([], e)]

/-- The errors of a part. -/
def under (loc : Loc) (x : Except Errors α) : Except Errors α :=
  x.mapError fun errors => errors.map fun e => (loc :: e.1, e.2)

/-- Two parts, and the errors of both. -/
def both (x : Except Errors α) (y : Except Errors β) : Except Errors (α × β) :=
  match x, y with
  | .ok a, .ok b => .ok (a, b)
  | .ok _, .error e => .error e
  | .error e, .ok _ => .error e
  | .error e, .error e' => .error (e ++ e')

theorem here_eq_ok {x : Except FieldError α} {a : α} : here x = .ok a ↔ x = .ok a := by
  cases x <;> simp [here, Except.mapError]

theorem under_eq_ok {loc : Loc} {x : Except Errors α} {a : α} : under loc x = .ok a ↔ x = .ok a := by
  cases x <;> simp [under, Except.mapError]

theorem both_eq_ok {x : Except Errors α} {y : Except Errors β} {p : α × β} :
    both x y = .ok p ↔ x = .ok p.1 ∧ y = .ok p.2 := by
  obtain ⟨a, b⟩ := p
  cases x <;> cases y <;> simp [both]

end Errors

/-! ### Models -/

structure Codec (F α : Type) where
  read : Value F → Except Errors α
  dump : α → Value F
  read_dump : ∀ v a, read v = .ok a → read (dump a) = .ok a

namespace Codec

/-- The model may hold the value. -/
def Valid {F α : Type} (c : Codec F α) (a : α) : Prop := c.read (c.dump a) = .ok a

theorem valid_of_read {F α : Type} {c : Codec F α} {v : Value F} {a : α} (h : c.read v = .ok a) :
    c.Valid a := c.read_dump v a h

section Parts

variable {F : Type} [Pydantic F]

def str : Codec F Str where
  read v := here (readText v)
  dump := .str
  read_dump v s h := by
    rw [here_eq_ok, readText_eq_ok] at h ⊢
    exact ⟨rfl, h.2⟩

theorem valid_str {s : Str} : (str : Codec F Str).Valid s ↔ Taken F s := by
  unfold Valid str
  dsimp only
  rw [here_eq_ok, readText_eq_ok]
  exact and_iff_right rfl

/-- `float`, with its `ge` and its `le`. A NaN is within every bound. -/
def between [LT F] [DecidableLT F] [LawfulPydantic F] (ge le : F) : Codec F F where
  read v := here (match Pydantic.toFloat v with
    | none => .error .floatType
    | some x =>
      if le < x then .error .lessThanEqual
      else if x < ge then .error .greaterThanEqual
      else .ok x)
  dump := .float
  read_dump v x h := by
    rw [here_eq_ok] at h ⊢
    rw [LawfulPydantic.toFloat_float]
    split at h
    · cases h
    · next y _ =>
      split at h
      · cases h
      · next hle =>
        split at h
        · cases h
        · next hge =>
          cases h
          rw [if_neg hle, if_neg hge]

end Parts

section List

variable {F α : Type} (c : Codec F α)

/-- The items from number `i` on. -/
def readItems (i : ℕ) : List (Value F) → Except Errors (List α)
  | [] => .ok []
  | v :: items =>
    (both (under (.item i) (c.read v)) (readItems (i + 1) items)).map fun p => p.1 :: p.2

variable {c} in
theorem readItems_cons_eq_ok {i : ℕ} {v : Value F} {items : List (Value F)} {l : List α} :
    c.readItems i (v :: items) = .ok l ↔
      ∃ a as, l = a :: as ∧ c.read v = .ok a ∧ c.readItems (i + 1) items = .ok as := by
  rw [readItems]
  cases hb : both (under (.item i) (c.read v)) (c.readItems (i + 1) items) with
  | error e =>
    refine iff_of_false (by simp [Except.map]) ?_
    rintro ⟨a, as, -, ha, has⟩
    cases hb.symm.trans (both_eq_ok (p := (a, as)).mpr ⟨under_eq_ok.mpr ha, has⟩)
  | ok p =>
    obtain ⟨ha, has⟩ := both_eq_ok.mp hb
    rw [under_eq_ok] at ha
    simp only [Except.map, Except.ok.injEq, ha, has]
    constructor
    · rintro rfl
      exact ⟨_, _, rfl, rfl, rfl⟩
    · rintro ⟨a, as, rfl, rfl, rfl⟩
      rfl

/-- `list[…]`. -/
def list : Codec F (List α) where
  read
    | .arr items => c.readItems 0 items
    | _ => .error [([], .listType)]
  dump l := .arr (l.map c.dump)
  read_dump v l h := by
    split at h
    · next items =>
      generalize 0 = i at h ⊢
      induction items generalizing i l with
      | nil =>
        cases h
        rfl
      | cons v items ih =>
        obtain ⟨a, as, rfl, ha, has⟩ := readItems_cons_eq_ok.mp h
        exact readItems_cons_eq_ok.mpr ⟨a, as, rfl, c.read_dump v a ha, ih as (i + 1) has⟩
    · cases h

variable {c} in
theorem valid_list {l : List α} : c.list.Valid l ↔ ∀ a ∈ l, c.Valid a := by
  unfold Valid list
  dsimp only
  generalize 0 = i
  induction l generalizing i with
  | nil => simp [readItems]
  | cons a l ih =>
    rw [List.map_cons, readItems_cons_eq_ok, List.forall_mem_cons, ← ih (i + 1)]
    constructor
    · rintro ⟨_, _, he, ha, hl⟩
      cases he
      exact ⟨ha, hl⟩
    · rintro ⟨ha, hl⟩
      exact ⟨a, l, rfl, ha, hl⟩

/-- A validator that looks at the whole model once its fields are valid. -/
def check (validator : α → Except FieldError Unit) : Codec F α where
  read v := do
    let a ← c.read v
    here (validator a)
    .ok a
  dump := c.dump
  read_dump v a h := by
    obtain ⟨b, hb, h⟩ := Results.bind_eq_ok.mp h
    obtain ⟨_, hvalid, h⟩ := Results.bind_eq_ok.mp h
    cases h
    exact Results.bind_eq_ok.mpr ⟨a, c.read_dump v a hb, Results.bind_eq_ok.mpr ⟨_, hvalid, rfl⟩⟩

end List

end Codec

/-! ### Objects -/

/-- Fields of an object, with the law for every object that has the dumped members. -/
structure Fields (F α : Type) where
  names : List Str
  read : List (Str × Value F) → Except Errors α
  dump : α → List (Str × Value F)
  names_dump : ∀ a, (dump a).map Prod.fst = names
  read_dump : ∀ members a, read members = .ok a → ∀ members' : List (Str × Value F),
    (members'.map Prod.fst).Nodup → dump a ⊆ members' → read members' = .ok a

namespace Fields

variable {F α β : Type}

/-- One field; without a default it is required. -/
def field (name : Str) (c : Codec F α) (default : Option α)
    (hdefault : ∀ a ∈ default, c.read (c.dump a) = .ok a) : Fields F α where
  names := [name]
  read members :=
    under (.field name) (match members.lookup name with
      | some v => c.read v
      | none => match default with
        | some a => .ok a
        | none => .error [([], .missing)])
  dump a := [(name, c.dump a)]
  names_dump _ := rfl
  read_dump members a h members' hkeys hdump := by
    rw [under_eq_ok] at h ⊢
    rw [lookup_of_mem hkeys (hdump List.mem_cons_self)]
    split at h
    · next v _ => exact c.read_dump v a h
    · cases default with
      | none => cases h
      | some b =>
        cases h
        exact hdefault a rfl

def required (name : Str) (c : Codec F α) : Fields F α := field name c none (by simp)

/-- The fields are read from every object that has their dump. -/
def Valid (x : Fields F α) (a : α) : Prop := ∀ members : List (Str × Value F),
  (members.map Prod.fst).Nodup → x.dump a ⊆ members → x.read members = .ok a

theorem valid_required {name : Str} {c : Codec F α} {a : α} (h : c.Valid a) :
    (required name c).Valid a := by
  intro members hkeys hdump
  unfold required field
  dsimp only
  rw [under_eq_ok, lookup_of_mem hkeys (hdump List.mem_cons_self)]
  exact h

theorem required_read_eq_ok {name : Str} {c : Codec F α} {members : List (Str × Value F)} {a : α} :
    (required name c).read members = .ok a ↔ ∃ v, members.lookup name = some v ∧ c.read v = .ok a := by
  unfold required field
  dsimp only
  rw [under_eq_ok]
  cases members.lookup name <;> simp

/-- The fields of both. -/
def pair (x : Fields F α) (y : Fields F β) : Fields F (α × β) where
  names := x.names ++ y.names
  read members := both (x.read members) (y.read members)
  dump p := x.dump p.1 ++ y.dump p.2
  names_dump p := by rw [List.map_append, x.names_dump, y.names_dump]
  read_dump members p h members' hkeys hdump := by
    obtain ⟨hx, hy⟩ := both_eq_ok.mp h
    refine both_eq_ok.mpr ⟨x.read_dump members p.1 hx members' hkeys ?_,
      y.read_dump members p.2 hy members' hkeys ?_⟩
    · exact List.Subset.trans (List.subset_append_left _ _) hdump
    · exact List.Subset.trans (List.subset_append_right _ _) hdump

theorem valid_pair {x : Fields F α} {y : Fields F β} {p : α × β} (hx : x.Valid p.1) (hy : y.Valid p.2) :
    (x.pair y).Valid p := fun members hkeys hdump => both_eq_ok.mpr
  ⟨hx members hkeys (List.Subset.trans (List.subset_append_left _ _) hdump),
    hy members hkeys (List.Subset.trans (List.subset_append_right _ _) hdump)⟩

/-- `extra="forbid"`. -/
def extras (names : List Str) (members : List (Str × Value F)) : Except Errors Unit :=
  match (members.map Prod.fst).filter (· ∉ names) with
  | [] => .ok ()
  | extra => .error (extra.map fun name => ([.field name], .extraForbidden))

theorem extras_self {names : List Str} {members : List (Str × Value F)}
    (h : members.map Prod.fst = names) : extras names members = .ok () := by
  have hnone : (members.map Prod.fst).filter (· ∉ names) = [] :=
    List.filter_eq_nil_iff.mpr (by simp [h])
  rw [extras, hnone]

/-- A class of models, with its fields. -/
def model (fields : Fields F α) (pack : α → β) (unpack : β → α) (hpack : ∀ a, unpack (pack a) = a)
    (hnames : fields.names.Nodup) : Codec F β where
  read
    | .obj members =>
      (both (fields.read members) (extras fields.names members)).map fun p => pack p.1
    | _ => .error [([], .modelType)]
  dump b := .obj (fields.dump (unpack b))
  read_dump v b h := by
    split at h
    · next members =>
      cases hb : both (fields.read members) (extras fields.names members) with
      | error e =>
        rw [hb] at h
        cases h
      | ok p =>
        rw [hb] at h
        cases h
        have hdump := fields.names_dump p.1
        have hagain := fields.read_dump members p.1 (both_eq_ok.mp hb).1 (fields.dump p.1)
          (hdump ▸ hnames) (List.Subset.refl _)
        rw [hpack, both_eq_ok.mpr ⟨hagain, extras_self hdump⟩]
        rfl
    · cases h

theorem valid_model {fields : Fields F α} {pack : α → β} {unpack : β → α}
    {hpack : ∀ a, unpack (pack a) = a} {hnames : fields.names.Nodup} {a : α} (h : fields.Valid a) :
    (model fields pack unpack hpack hnames).Valid (pack a) := by
  unfold Codec.Valid model
  dsimp only
  have hdump := fields.names_dump a
  have hboth : both (fields.read (fields.dump a)) (extras fields.names (fields.dump a)) = .ok (a, ()) :=
    both_eq_ok.mpr ⟨h _ (hdump ▸ hnames) (List.Subset.refl _), extras_self hdump⟩
  rw [hpack, hboth]
  rfl

theorem exists_of_model_read {fields : Fields F α} {pack : α → β} {unpack : β → α}
    {hpack : ∀ a, unpack (pack a) = a} {hnames : fields.names.Nodup} {v : Value F} {b : β}
    (h : (model fields pack unpack hpack hnames).read v = .ok b) :
    ∃ members a, v = .obj members ∧ fields.read members = .ok a ∧ b = pack a := by
  unfold model at h
  dsimp only at h
  split at h
  · next members =>
    cases hb : both (fields.read members) (extras fields.names members) with
    | error e =>
      rw [hb] at h
      cases h
    | ok p =>
      rw [hb] at h
      cases h
      exact ⟨members, p.1, rfl, (both_eq_ok.mp hb).1, rfl⟩
  · cases h

end Fields

end LiberNovus.Json
