import FlatScript.Proofs.Bindings
import FlatScript.Proofs.ByteOrder
import Mathlib.Data.Finset.Card
import Mathlib.Data.Finset.Dedup

/-!
# An environment records the history of its definitions

Whatever was defined, in whatever order and however often, an environment answers with what a name
was defined as last.  That is all it keeps: the names bound are the names defined, each of them
once, and the bindings stand in the order of the bytes of their names.  So two histories that say
the same last of every name leave the same environment.

One definition puts one binding behind the history (`Remembers.define`), and so what holds after any
sequence of them is shown by induction on it (`Remembers.exchangeAll`).  The rest is settled by the
answers alone (`Remembers.records`).

Main statement, `history_recorded`.
-/

namespace FlatScript.Environment

variable {env : Environment} {history : List Binding} {x y : String} {v : Value}

/-! ## Histories -/

/-- What a history of definitions says last of a name. -/
def latest (x : String) (history : List Binding) : Option Value := history.reverse.lookup x

theorem latest_concat : latest x (history ++ [(y, v)])
    = if x = y then some v else latest x history := by
  rw [latest, List.reverse_concat, List.lookup_cons]
  by_cases hx : x = y
  · rw [if_pos hx, beq_iff_eq.mpr hx]
  · rw [if_neg hx, beq_eq_false_iff_ne.mpr hx]
    rfl

/-- A history says something of the names that it defines. -/
theorem latest_isSome_iff : (latest x history).isSome = true ↔ x ∈ history.map Prod.fst := by
  rw [latest, List.lookup_isSome_iff, List.mem_map]
  constructor
  · rintro ⟨b, hb, hx⟩
    exact ⟨b, List.mem_reverse.mp hb, (eq_of_beq hx).symm⟩
  · rintro ⟨b, hb, rfl⟩
    exact ⟨b, List.mem_reverse.mpr hb, beq_self_eq_true b.1⟩

/-- Histories that say the same last of every name. -/
def EndAlike (history other : List Binding) : Prop := ∀ x, latest x history = latest x other

/-- Makes definitions one after the other, and tells what each of them replaced. -/
def exchangeAll (env : Environment) : List Binding → List (Option Value) × Environment
  | [] => ([], env)
  | b :: bs =>
    let (replaced, env) := env.exchange b.1 b.2
    let (rest, env) := env.exchangeAll bs
    (replaced :: rest, env)

/-! ## What an environment remembers -/

/-- The environment answers with what the history says last. -/
def Remembers (env : Environment) (history : List Binding) : Prop :=
  ∀ x, env.lookup x = latest x history

theorem Remembers.define (h : env.Remembers history) (x : String) (v : Value) :
    (env.define x v).Remembers (history ++ [(x, v)]) := by
  intro y
  rw [lookup_define, latest_concat, h]

/-- Definitions go behind what an environment remembers, and each of them replaces what was defined
last before it. -/
theorem Remembers.exchangeAll (h : env.Remembers history) (bs : List Binding) :
    (env.exchangeAll bs).2.Remembers (history ++ bs) ∧
      ∀ k : Nat, (env.exchangeAll bs).1[k]?
        = bs[k]?.map fun b => latest b.1 (history ++ bs.take k) := by
  induction bs generalizing env history with
  | nil => exact ⟨(List.append_nil history).symm ▸ h, fun k => rfl⟩
  | cons b bs ih =>
      obtain ⟨hlast, hreplaced⟩ := ih (h.define b.1 b.2)
      rw [← List.append_cons] at hlast
      refine ⟨hlast, fun k => ?_⟩
      cases k with
      | zero =>
          show some (env.lookup b.1) = some (latest b.1 (history ++ []))
          rw [h, List.append_nil]
      | succ k =>
          refine (hreplaced k).trans ?_
          rw [List.getElem?_cons_succ, List.take_succ_cons]
          simp only [List.append_assoc]
          rfl

theorem snd_exchangeAll (env : Environment) (bs : List Binding) :
    (env.exchangeAll bs).2 = bs.foldl (fun env b => env.define b.1 b.2) env := by
  induction bs generalizing env with
  | nil => rfl
  | cons b bs ih => exact ih (env.define b.1 b.2)

theorem remembers_ofList (bs : List Binding) : (ofList bs).Remembers bs := by
  have hempty : empty.Remembers [] := fun _ => rfl
  rw [ofList, ← snd_exchangeAll]
  exact (hempty.exchangeAll bs).1

/-! ## What can be asked of an environment -/

/-- Whatever can be asked of an environment is settled by the history. -/
structure Records (env : Environment) (history : List Binding) : Prop where
  lookup_eq : ∀ x, env.lookup x = latest x history
  contains_iff : ∀ x, env.contains x = true ↔ ∃ v, env.lookup x = some v
  isEmpty_iff : env.isEmpty = true ↔ ∀ x, env.lookup x = none
  size_eq : env.size = (history.map Prod.fst).toFinset.card
  ascending : env.bindings.Pairwise fun a b => Text.bytes a.1 < Text.bytes b.1
  mem_bindings_iff : ∀ x v, (x, v) ∈ env.bindings ↔ env.lookup x = some v

theorem isEmpty_iff_forall : env.isEmpty = true ↔ ∀ x, env.lookup x = none := by
  rw [isEmpty, List.isEmpty_iff]
  constructor
  · intro hnil x
    rw [lookup, hnil]
    rfl
  · intro hnone
    refine List.eq_nil_iff_forall_not_mem.mpr ?_
    rintro ⟨x, v⟩ hb
    rw [mem_bindings_iff, hnone] at hb
    cases hb

theorem Remembers.size_eq (h : env.Remembers history) :
    env.size = (history.map Prod.fst).toFinset.card := by
  have hnames : env.names.toFinset = (history.map Prod.fst).toFinset := by
    ext x
    rw [List.mem_toFinset, List.mem_toFinset, mem_names_iff, contains, h x, latest_isSome_iff]
  rw [← hnames, List.toFinset_card_of_nodup env.nodup_names, names, List.length_map, size]

theorem Remembers.records (h : env.Remembers history) : env.Records history where
  lookup_eq := h
  contains_iff _ := Option.isSome_iff_exists
  isEmpty_iff := isEmpty_iff_forall
  size_eq := h.size_eq
  ascending := env.ascending.imp fun hlt => Text.bytes_lt hlt
  mem_bindings_iff _ _ := mem_bindings_iff

theorem Remembers.eq_iff {f : Environment} {other : List Binding} (h : env.Remembers history)
    (h' : f.Remembers other) : env = f ↔ EndAlike history other := by
  constructor
  · rintro rfl x
    rw [← h, h']
  · intro halike
    refine eq_of_lookup_eq fun x => ?_
    rw [h, h', halike]

/-- An environment that is made of definitions and then given more of them records them all.  Every
definition is told the value that it replaced, which is what was defined last before it.  Any two
histories leave the same environment, with the same bindings, exactly if they end alike. -/
theorem history_recorded (start definitions : List Binding) :
    let (replaced, env) := (ofList start).exchangeAll definitions
    env.Records (start ++ definitions) ∧
      (∀ k : Nat, replaced[k]?
        = definitions[k]?.map fun b => latest b.1 (start ++ definitions.take k)) ∧
      ∀ start' definitions' : List Binding,
        let (_, env') := (ofList start').exchangeAll definitions'
        (env = env' ↔ EndAlike (start ++ definitions) (start' ++ definitions')) ∧
          (env.bindings = env'.bindings ↔
            EndAlike (start ++ definitions) (start' ++ definitions')) := by
  obtain ⟨hlast, hreplaced⟩ := (remembers_ofList start).exchangeAll definitions
  refine ⟨hlast.records, hreplaced, fun start' definitions' => ?_⟩
  obtain ⟨hlast', -⟩ := (remembers_ofList start').exchangeAll definitions'
  have heq := hlast.eq_iff hlast'
  exact ⟨heq, Environment.ext_iff.symm.trans heq⟩

/-- A name that is defined again keeps its place, and a name of one byte stands before `é`. -/
example :
    let (replaced, env) := (ofList [("é", .absent), ("b", .bool true)]).exchangeAll
      [("z", .absent), ("b", .bool false)]
    replaced = [none, some (.bool true)] ∧
      env.bindings = [("b", .bool false), ("z", .absent), ("é", .absent)] := by
  decide

end FlatScript.Environment
