import BlockFlow.Proofs.Making
import BlockFlow.Proofs.Spellings

/-!
Settings over runs of an archive. Settings are written and removed under keys in any case of letters, between saves and
deletions of flows. What is resolved for a key is the value that stands under it, else the environment, else the default.

* `Store.valueAt`, `Store.valueAt_putSetting`, `Store.valueAt_unset`: the table of settings as a function of the names.
* `Text.Strips`, `Text.strips_strip`: a text without the blanks around it.
* `Call`, `Call.step`, `Call.run`: calls of an archive, and many of them.
* `Call.Stands`: a value was the last one written under a key, and not removed since; `Call.kept_run`: **such values are
  what the table holds after a run.**
* `Call.resolve_run`: **what is resolved after a run.**
-/

namespace BlockFlow

/-! ## The table of settings -/

namespace Store

/-- The cell of the name of a setting. -/
def nameCell (key : Value) : Except Fault Cell := do Cell.ofValue 1 (← settingName key)

/-- What the table of settings has under a name. -/
def valueAt (s : Store) (name : Cell) : Option Cell := (s.settings.find? fun r => r.key.holds name).map (·.value)

/-- The value of a key. -/
def kept (s : Store) (key : String) : Option Value := (s.valueAt (.text (Text.lower key))).map Cell.toValue

theorem nameCell_eq_text_iff {key : Value} {name : String} :
    nameCell key = .ok (.text name) ↔ ∃ k, key = .text k ∧ Text.lower k = name := by
  cases key with
  | text k => simp [nameCell, settingName, Cell.ofValue, bind, Except.bind]
  | bytes bs => simp [nameCell, settingName, Cell.ofValue, bind, Except.bind]
  | _ => simp [nameCell, settingName, bind, Except.bind]

theorem nameCell_isNull {key : Value} {c : Cell} (h : nameCell key = .ok c) : c.isNull = false := by
  cases key with
  | text k =>
    obtain rfl := Except.ok.inj h
    rfl
  | bytes bs =>
    obtain rfl := Except.ok.inj h
    rfl
  | _ => cases h

theorem setting?_text (s : Store) (key : String) : s.setting? (.text key) = .ok (s.kept key) := by
  rw [kept, valueAt, Option.map_map]
  rfl

theorem key_of_find? {rows : List Setting} {c : Cell} {x : Setting} (h : rows.find? (fun r => r.key.holds c) = some x) :
    x.key.isNull = false ∧ x.key = c :=
  Cell.holds_iff.1 (by simpa using List.find?_some h)

/-- A row that is written stands under its name, and what stands under other names stays. -/
theorem valueAt_putSetting (s : Store) {r : Setting} (hkey : r.key.isNull = false) (hvalue : r.value.isNull = false) :
    ∃ s' : Store, s.putSetting r = .ok s' ∧ ∀ c, s'.valueAt c = if c = r.key then some r.value else s.valueAt c := by
  have hself : r.key.holds r.key = true := Cell.holds_iff.2 ⟨hkey, rfl⟩
  cases hany : s.settings.any fun old => old.key.holds r.key with
  | true =>
    refine ⟨_, by rw [putSetting, hvalue, hany]; rfl, fun c => ?_⟩
    have hkeys (old : Setting) : (if old.key.holds r.key then { r with key := old.key } else old).key = old.key := by
      split <;> rfl
    simp only [valueAt, List.find?_map, Function.comp_def, hkeys, Option.map_map]
    cases hfind : s.settings.find? fun x => x.key.holds c with
    | none =>
      have hne : c ≠ r.key := by
        rintro rfl
        rw [List.find?_eq_none] at hfind
        obtain ⟨x, hx, hholds⟩ := List.any_eq_true.1 hany
        exact hfind x hx hholds
      rw [if_neg hne]
      rfl
    | some x =>
      obtain ⟨hnull, rfl⟩ := key_of_find? hfind
      by_cases heq : x.key = r.key
      · simp [heq, hself]
      · have hother : x.key.holds r.key = false := Bool.eq_false_iff.2 fun hholds => heq (Cell.holds_iff.1 hholds).2
        simp [heq, hother]
  | false =>
    refine ⟨_, by rw [putSetting, hvalue, hany]; rfl, fun c => ?_⟩
    simp only [valueAt, List.find?_append]
    by_cases heq : c = r.key
    · subst heq
      have hnone : s.settings.find? (fun x => x.key.holds r.key) = none := by
        rw [List.find?_eq_none]
        exact List.any_eq_false.1 hany
      simp [hnone, hself]
    · have hother : r.key.holds c = false := Bool.eq_false_iff.2 fun hholds => heq (Cell.holds_iff.1 hholds).2.symm
      simp [heq, hother]

/-- A name that is removed has nothing, and what stands under other names stays. -/
theorem valueAt_filter (s : Store) (name c : Cell) :
    valueAt { s with settings := s.settings.filter fun r => !r.key.holds name } c =
      if c = name then none else s.valueAt c := by
  rw [valueAt, List.find?_filter]
  by_cases heq : c = name
  · subst heq
    simp [List.find?_eq_none]
  · rw [if_neg heq, valueAt]
    congr 2
    funext x
    by_cases hx : x.key.holds c = true
    · have hother : x.key.holds name = false := by
        refine Bool.eq_false_iff.2 fun hholds => heq ?_
        exact (Cell.holds_iff.1 hx).2.symm.trans (Cell.holds_iff.1 hholds).2
      simp [hx, hother]
    · simp [hx]

theorem isSome_valueAt (s : Store) (c : Cell) : (s.valueAt c).isSome = s.settings.any fun r => r.key.holds c := by
  rw [valueAt, Option.isSome_map, Bool.eq_iff_iff, List.find?_isSome, List.any_eq_true]

/-- Writing a text under a key that has a name. -/
theorem setSetting_of_nameCell {key : Value} {c : Cell} (h : nameCell key = .ok c) (s : Store) (now value : String) :
    ∃ s' record, s.setSetting now key (.text value) = .ok (s', record) ∧
      ∀ d, s'.valueAt d = if d = c then some (.text value) else s.valueAt d := by
  obtain ⟨name, hname, hcell⟩ := bind_eq_ok.1 h
  obtain ⟨s', hput, hvalues⟩ := s.valueAt_putSetting (r := ⟨c, .text value, .text now⟩) (nameCell_isNull h) rfl
  refine ⟨s', .object [("key", name), ("value", .text value), ("updated_at", .text now)], ?_, hvalues⟩
  rw [setSetting, hname]
  dsimp only [bind, Except.bind]
  rw [hcell]
  dsimp only [Cell.ofValue]
  rw [hput]
  rfl

theorem setSetting_of_error {key : Value} {fault : Fault} (h : nameCell key = .error fault) (s : Store) (now : String)
    (value : Value) : s.setSetting now key value = .error fault := by
  cases key with
  | text k => cases h
  | bytes bs => cases h
  | _ =>
    obtain rfl := Except.error.inj h
    rfl

theorem unset_eq_map (s : Store) (key : Value) : s.unset key = (nameCell key).map fun c =>
    ({ s with settings := s.settings.filter fun r => !r.key.holds c }, (s.valueAt c).isSome) := by
  simp only [isSome_valueAt]
  rw [unset, nameCell]
  cases settingName key with
  | error fault => rfl
  | ok name =>
    dsimp only [bind, Except.bind]
    cases Cell.ofValue 1 name <;> rfl

end Store

/-- Flows are saved and deleted in a table of their own. -/
theorem StoreWrite.settings_change (t : Instant) (s : Store) (write : StoreWrite) :
    (write.change t s).settings = s.settings := by
  cases write with
  | save f =>
    rw [change]
    cases (f.stamped t.savedStamp).row <;> rfl
  | delete id =>
    rw [change]
    cases Cell.ofValue 1 id <;> rfl

/-! ## Texts without the blanks around them -/

namespace Text

/-- The second text is the first one without the blanks around it. -/
structure Strips (s t : String) : Prop where
  around : ∃ front back : List Char, s.toList = front ++ t.toList ++ back ∧ ∀ c ∈ front ++ back, isBlank c = true
  head : ∀ c ∈ t.toList.head?, isBlank c = false
  last : ∀ c ∈ t.toList.getLast?, isBlank c = false

theorem toList_strip (s : String) : (strip s).toList = trim isBlank s.toList := String.toList_ofList

theorem strips_strip (s : String) : Strips s (strip s) := by
  constructor <;> rw [toList_strip]
  · exact exists_trim isBlank s.toList
  · exact head?_trim
  · exact getLast?_trim

/-- **A text has exactly one form without the blanks around it.** -/
theorem strips_iff {s t : String} : Strips s t ↔ t = strip s := by
  constructor
  · rintro ⟨⟨front, back, hs, hblank⟩, hhead, hlast⟩
    rw [← String.toList_inj, toList_strip, hs, trim_append hblank hhead hlast]
  · rintro rfl
    exact strips_strip s

end Text

/-! ## Calls of an archive -/

/-- A setting is written or removed, or flows are saved or deleted. -/
inductive Call where
  | set (key : Value) (value : String)
  | unset (key : Value)
  | flows (write : StoreWrite)

namespace Call

/-- The call as a step of the archive. -/
def step : Call → Work Unit
  | .set key value => do
    let _ ← Archive.setSetting key (.text value)
  | .unset key => do
    let _ ← Archive.unset key
  | .flows write => write.step

/-- The workspace after calls, each at its instant. A call that fails is one of them. -/
def run (w : Workspace) (calls : List (Instant × Call)) : Workspace :=
  calls.foldl (fun w p => (p.2.step (w.setClock p.1)).2) w

/-- The key of a setting that the call writes or removes. -/
def key? : Call → Option Value
  | .set key _ => some key
  | .unset key => some key
  | .flows _ => none

/-- The call writes or removes the setting of a key, in whatever case of letters. -/
def Concerns (key : String) (call : Call) : Prop := ∃ k, call.key? = some (.text k) ∧ Text.lower k = Text.lower key

/-- The call writes a value under a key, in whatever case of letters. -/
def Writes (key : String) (v : Value) (call : Call) : Prop :=
  ∃ k value, call = .set (.text k) value ∧ Text.lower k = Text.lower key ∧ v = .text value

/-- A value was the last one that was written under a key, and it was not removed since. -/
def Stands (key : String) (v : Value) (calls : List (Instant × Call)) : Prop :=
  ∃ before p after, calls = before ++ p :: after ∧ p.2.Writes key v ∧ ∀ q ∈ after, ¬ q.2.Concerns key

/-- The tables after a call. -/
def change (t : Instant) (s : Store) : Call → Store
  | .set key value =>
    match s.setSetting t.savedStamp key (.text value) with
    | .ok (s', _) => s'
    | .error _ => s
  | .unset key =>
    match s.unset key with
    | .ok (s', _) => s'
    | .error _ => s
  | .flows write => write.change t s

/-- A call changes the tables as it is told. -/
theorem store_step {w : Workspace} {t : Instant} (hnow : w.now = t.micros) (call : Call) :
    (call.step w).2.store = some (call.change t (w.store.getD {})) := by
  cases call with
  | set key value =>
    rw [step, Act.bind_apply, Archive.setSetting, Act.bind_apply, Session.store_apply]
    dsimp only
    rw [Act.bind_apply, Work.stamp_apply, hnow, t.saved]
    dsimp only
    rw [Act.bind_apply, Act.ofExcept_apply, change]
    cases (w.store.getD {}).setSetting t.savedStamp key (.text value) <;> rfl
  | unset key =>
    rw [step, Act.bind_apply, Archive.unset, Act.bind_apply, Session.store_apply]
    dsimp only
    rw [Act.bind_apply, Act.ofExcept_apply, change]
    cases (w.store.getD {}).unset key <;> rfl
  | flows write => exact StoreWrite.store_step hnow write

theorem Writes.concerns {key : String} {v : Value} {call : Call} (h : call.Writes key v) : call.Concerns key := by
  obtain ⟨k, value, rfl, hkey, -⟩ := h
  exact ⟨k, rfl, hkey⟩

section Keys

variable {key : String} {v k : Value} {value : String}

theorem concerns_set : (set k value).Concerns key ↔ Store.nameCell k = .ok (.text (Text.lower key)) := by
  simp [Concerns, key?, Store.nameCell_eq_text_iff]

theorem concerns_unset : (unset k).Concerns key ↔ Store.nameCell k = .ok (.text (Text.lower key)) := by
  simp [Concerns, key?, Store.nameCell_eq_text_iff]

theorem writes_set : (set k value).Writes key v ↔ Store.nameCell k = .ok (.text (Text.lower key)) ∧ .text value = v := by
  rw [Store.nameCell_eq_text_iff]
  constructor
  · rintro ⟨k', value', h, hkey, rfl⟩
    obtain ⟨rfl, rfl⟩ := set.inj h
    exact ⟨⟨k', rfl, hkey⟩, rfl⟩
  · rintro ⟨⟨k', rfl, hkey⟩, rfl⟩
    exact ⟨k', value, rfl, hkey, rfl⟩

end Keys

/-- **What the tables have under a key after a call.** -/
theorem kept_change (t : Instant) (s : Store) (call : Call) (key : String) (v : Value) :
    (call.change t s).kept key = some v ↔ call.Writes key v ∨ (¬ call.Concerns key ∧ s.kept key = some v) := by
  cases call with
  | set k value =>
    rw [writes_set, concerns_set, change]
    cases hname : Store.nameCell k with
    | error fault => simp [Store.setSetting_of_error hname]
    | ok c =>
      obtain ⟨s', record, hset, hvalues⟩ := Store.setSetting_of_nameCell hname s t.savedStamp value
      rw [hset]
      dsimp only
      rw [Store.kept, hvalues]
      by_cases hc : c = .text (Text.lower key)
      · simp [hc, Cell.toValue]
      · simp [hc, Ne.symm hc, Store.kept]
  | unset k =>
    have hwrites : ¬ (unset k).Writes key v := by
      rintro ⟨_, _, h, _⟩
      cases h
    rw [concerns_unset, change, Store.unset_eq_map]
    cases hname : Store.nameCell k with
    | error fault => simp [Except.map, hwrites]
    | ok c =>
      dsimp only [Except.map]
      rw [Store.kept, Store.valueAt_filter]
      by_cases hc : c = .text (Text.lower key)
      · simp [hc, hwrites]
      · simp [hc, Ne.symm hc, Store.kept, hwrites]
  | flows write =>
    have hconcerns : ¬ (flows write).Concerns key := by
      rintro ⟨_, h, _⟩
      cases h
    have hwrites : ¬ (flows write).Writes key v := fun h => hconcerns h.concerns
    rw [change, Store.kept, Store.valueAt, write.settings_change]
    simp [hwrites, hconcerns, Store.kept, Store.valueAt]

theorem not_stands_nil {key : String} {v : Value} : ¬ Stands key v [] := by simp [Stands]

theorem stands_cons {key : String} {v : Value} {p : Instant × Call} {calls : List (Instant × Call)} :
    Stands key v (p :: calls) ↔ Stands key v calls ∨ (p.2.Writes key v ∧ ∀ q ∈ calls, ¬ q.2.Concerns key) := by
  constructor
  · rintro ⟨before, q, after, hcalls, hwrites, hafter⟩
    cases before with
    | nil =>
      obtain ⟨rfl, rfl⟩ := List.cons.inj hcalls
      exact Or.inr ⟨hwrites, hafter⟩
    | cons r before =>
      obtain ⟨-, hcalls⟩ := List.cons.inj hcalls
      exact Or.inl ⟨before, q, after, hcalls, hwrites, hafter⟩
  · rintro (⟨before, q, after, rfl, hwrites, hafter⟩ | ⟨hwrites, hafter⟩)
    · exact ⟨p :: before, q, after, rfl, hwrites, hafter⟩
    · exact ⟨[], p, calls, rfl, hwrites, hafter⟩

/-- **What the tables have under a key after a run.** The induction is on the calls, from the first on: what a call leaves
counts if no later one concerns the key. -/
theorem kept_run (w : Workspace) (calls : List (Instant × Call)) (key : String) (v : Value) :
    ((run w calls).store.getD {}).kept key = some v ↔
      Stands key v calls ∨ ((∀ p ∈ calls, ¬ p.2.Concerns key) ∧ (w.store.getD {}).kept key = some v) := by
  induction calls generalizing w with
  | nil => simp [run, not_stands_nil]
  | cons p calls ih =>
    have hstep := store_step (t := p.1) (w := w.setClock p.1) rfl p.2
    have hrun : run w (p :: calls) = run (p.2.step (w.setClock p.1)).2 calls := rfl
    rw [hrun, ih, hstep, Option.getD_some, kept_change, stands_cons, List.forall_mem_cons]
    change _ ∨ (_ ∧ (_ ∨ (_ ∧ (w.store.getD {}).kept key = some v))) ↔ _
    tauto

/-- The call is about settings, not about flows. -/
def ofSettings : Call → Bool
  | .flows _ => false
  | _ => true

theorem ofSettings_of_concerns {key : String} {call : Call} (h : call.Concerns key) : call.ofSettings = true := by
  obtain ⟨k, hkey, -⟩ := h
  cases call with
  | flows write => cases hkey
  | _ => rfl

/-- What stands under a key does not depend on the calls about flows. -/
theorem stands_filter {key : String} {v : Value} (calls : List (Instant × Call)) :
    Stands key v (calls.filter fun p => p.2.ofSettings) ↔ Stands key v calls := by
  induction calls with
  | nil => rfl
  | cons p calls ih =>
    rw [stands_cons]
    cases hp : p.2.ofSettings with
    | false =>
      have hwrites : ¬ p.2.Writes key v := fun h => by
        have := ofSettings_of_concerns h.concerns
        simp [hp] at this
      rw [List.filter_cons_of_neg (by simp [hp]), ih]
      simp [hwrites]
    | true =>
      have hconcerns : (∀ q ∈ calls.filter (fun p => p.2.ofSettings), ¬ q.2.Concerns key) ↔
          ∀ q ∈ calls, ¬ q.2.Concerns key := by
        refine ⟨fun h q hq hkey => ?_, fun h q hq => h q (List.mem_of_mem_filter hq)⟩
        exact h q (List.mem_filter.2 ⟨hq, ofSettings_of_concerns hkey⟩) hkey
      rw [List.filter_cons_of_pos (by simp [hp]), stands_cons, ih, hconcerns]

end Call

/-! ## What is resolved -/

theorem resolveSetting_text (env : Environment) (s : Store) (key variableName : String) (default : Value) :
    resolveSetting env (some s) (.text key) variableName default =
      .ok ((s.kept key).getD (if env.stripped variableName = "" then default else .text (env.stripped variableName))) := by
  rw [resolveSetting]
  dsimp only
  rw [s.setting?_text]
  cases s.kept key with
  | none =>
    change Except.ok (if (env.stripped variableName).isEmpty then default else .text (env.stripped variableName)) = _
    rw [Option.getD_none]
    simp only [String.isEmpty_iff]
  | some v => rfl

theorem Archive.unset_text (w : Workspace) (key : String) :
    (Archive.unset (.text key) w).1 = .ok ((w.store.getD {}).kept key).isSome := by
  have hname : Store.nameCell (.text key) = .ok (.text (Text.lower key)) := rfl
  rw [Archive.unset, Act.bind_apply, Session.store_apply]
  dsimp only
  rw [Act.bind_apply, Act.ofExcept_apply, Store.unset_eq_map, hname, Store.kept, Option.isSome_map]
  rfl

namespace Call

/-- **What is resolved after a run on a table without settings.** The value that stands under the key, though it may be
empty; else the variable of the environment without the blanks around it, unless that is empty; else the default. To remove
the key tells whether a value stands under it, and calls about flows change nothing of this. -/
theorem resolve_run {w : Workspace} (hempty : (w.store.getD {}).settings = []) (calls : List (Instant × Call))
    (env : Environment) (key variableName : String) (default : Value) :
    ∃ kept : Option Value, (∀ v, kept = some v ↔ Stands key v calls) ∧
      (∃ text, Text.Strips (env.valueD variableName "") text ∧
        resolveSetting env (some ((run w calls).store.getD {})) (.text key) variableName default =
          .ok (kept.getD (if text = "" then default else .text text))) ∧
      (Archive.unset (.text key) (run w calls)).1 = .ok kept.isSome ∧
      resolveSetting env (some ((run w calls).store.getD {})) (.text key) variableName default =
        resolveSetting env (some ((run w (calls.filter fun p => p.2.ofSettings)).store.getD {})) (.text key) variableName
          default := by
  have hnone : (w.store.getD {}).kept key = none := by simp [Store.kept, Store.valueAt, hempty]
  have hkept (calls : List (Instant × Call)) (v : Value) :
      ((run w calls).store.getD {}).kept key = some v ↔ Stands key v calls := by
    simp [kept_run, hnone]
  have hfilter : ((run w (calls.filter fun p => p.2.ofSettings)).store.getD {}).kept key =
      ((run w calls).store.getD {}).kept key := by
    refine Option.ext fun v => ?_
    rw [hkept, hkept, stands_filter]
  refine ⟨_, hkept calls, ⟨_, Text.strips_strip _, resolveSetting_text env _ key variableName default⟩,
    Archive.unset_text _ key, ?_⟩
  rw [resolveSetting_text, resolveSetting_text, hfilter]

/-- Two settings are written under keys with capitals, and flows are saved and deleted in between. Then one is written over
with an empty text, and the other removed, both under keys in another case. -/
def recased : List (Instant × Call) :=
  [(Service.epoch, .set (.text "Exec_Timeout") "5"), (Service.epoch, .flows (.save (Archive.blank "a" "A" .null))),
    (Service.epoch, .set (.text "NODE_BINARY") "node"), (Archive.soon, .set (.text "EXEC_TIMEOUT") ""),
    (Archive.soon, .unset (.text "node_binary")), (Archive.soon, .flows (.delete (.text "a")))]

/-- The empty text is resolved for the first, and the variable of the environment for the other. -/
theorem resolve_run_recased :
    (({ flow := { id := .null } } : Workspace).store.getD {}).settings = [] ∧
      resolveSetting [("WAIT", " 12\n")] (some ((run { flow := { id := .null } } recased).store.getD {}))
        (.text "exec_timeout") "WAIT" (.text "30") = .ok (.text "") ∧
      resolveSetting [("WAIT", " 12\n")] (some ((run { flow := { id := .null } } recased).store.getD {}))
        (.text "Node_Binary") "WAIT" (.text "30") = .ok (.text "12") ∧
      (Archive.unset (.text "Node_Binary") (run { flow := { id := .null } } recased)).1 = .ok false := by
  have htimeout : Text.lower "EXEC_TIMEOUT" = Text.lower "exec_timeout" := by decide +kernel
  have hbinary : Text.lower "node_binary" = Text.lower "Node_Binary" := by decide +kernel
  have hkeys : Text.lower "node_binary" ≠ Text.lower "exec_timeout" := by decide +kernel
  have htext : Text.strip (Environment.valueD [("WAIT", " 12\n")] "WAIT" "") = "12" := by decide +kernel
  obtain ⟨first, hfirst, ⟨_, -, hresolve⟩, -⟩ := resolve_run (w := { flow := { id := .null } }) rfl recased
    [("WAIT", " 12\n")] "exec_timeout" "WAIT" (.text "30")
  obtain ⟨other, hother, ⟨text, hstrips, hresolve'⟩, hunset, -⟩ := resolve_run (w := { flow := { id := .null } }) rfl recased
    [("WAIT", " 12\n")] "Node_Binary" "WAIT" (.text "30")
  have hempty : first = some (.text "") := by
    refine (hfirst _).2 ⟨recased.take 3, (Archive.soon, .set (.text "EXEC_TIMEOUT") ""), recased.drop 4, rfl,
      ⟨_, _, rfl, htimeout, rfl⟩, ?_⟩
    simp [recased, Concerns, key?, hkeys]
  have hnone : other = none := by
    refine Option.eq_none_iff_forall_ne_some.2 fun v hv => ?_
    have hstands := (hother v).1 hv
    simp [recased, stands_cons, not_stands_nil, Writes, Concerns, key?, hbinary] at hstands
  subst hempty hnone
  obtain rfl := Text.strips_iff.1 hstrips
  rw [htext] at hresolve'
  exact ⟨rfl, hresolve, hresolve', hunset⟩

end Call

end BlockFlow
