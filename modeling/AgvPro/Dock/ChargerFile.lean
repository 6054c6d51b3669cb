import AgvPro.Dock.ChargerJson
import AgvPro.Lib.Run

/-!
# The charger position, in its file and in memory

`json_data` is the position the markers show, `charger_position.json` the one a navigation
reads.  `save_charger_position` empties the file before it writes and only prints what goes
wrong, so the two can part, and the file can be left with a piece of a text.

    the file holds a position that was set ↔ no save breaks off in the text  (survives_iff)
    every goal is that of the shown position ↔ none is computed after an update whose save
      fails at `open` while the file holds another one, until the next update  (displayed_iff)
-/

namespace AgvPro

open Run

variable {F : Type}

/-! ## Model -/

/-- How far `save_charger_position` gets: not past `open`, or to `written` characters of
the text, or to its end without an error. -/
inductive SaveEnd where
  | notOpened
  | broken (written : Nat)
  | complete
deriving DecidableEq

/-- `startUp` is the constructor.  Each callback is one event; in an update, `dies` when
the process ends there, at the point of the save that `save` gives. -/
inductive ChargerEvent (F : Type) where
  | startUp
  | update (topic : ChargerPosition F) (save : SaveEnd) (dies : Bool)
  | timer
  | navigate
  | die

/-- A `Position_Update_callback`: the position received, the file it found, and how far its
save got. -/
structure ChargerUpdate (F : Type) where
  topic : ChargerPosition F
  found : Option (List Char)
  save : SaveEnd
deriving DecidableEq

/-- A goal of `execute_navigation_internal`: the charger pose it is computed from, and what
the node held in memory, showed and had last received then. -/
structure ChargerGoal (F : Type) where
  used : ChargerPosition F
  jsonData : ChargerPosition F
  marker : Option (ChargerPosition F)
  received : Option (ChargerPosition F)
deriving DecidableEq

/-- `jsonData` is `none` while the process is down, `marker` the last publication on
`/goal_marker`.  The rest is what has happened: the last update, the goals, the position
last saved, and those whose saves have failed since. -/
structure ChargerNode (F : Type) where
  file : Option (List Char)
  jsonData : Option (ChargerPosition F) := none
  marker : Option (ChargerPosition F) := none
  last : Option (ChargerUpdate F) := none
  goals : List (ChargerGoal F) := []
  saved : Option (ChargerPosition F) := none
  failed : List (ChargerPosition F) := []
deriving DecidableEq

/-- The charger position most recently received, in this life of the process or before. -/
def ChargerNode.received (s : ChargerNode F) : Option (ChargerPosition F) :=
  s.last.map ChargerUpdate.topic

def defaultPosition [Zero F] [One F] : ChargerPosition F := ⟨0, 0, 0, 1⟩

section Node

variable (json : Json F)

/-- `open` and `json.load`; `none` where one of them raises. -/
def readFile (file : Option (List Char)) : Option (Document F) := file.bind json.load

/-- What `load_charger_position` takes from the file; `none` where it raises.  Its message
uses two of the keys. -/
def loadFile (file : Option (List Char)) : Option (Document F) :=
  (readFile json file).filter fun d => d.p_x.isSome && d.p_y.isSome

def loadChargerPosition [Zero F] [One F] (file : Option (List Char)) : Document F :=
  (loadFile json file).getD defaultPosition.document

/-- The charger pose of `execute_navigation_internal`; `none` where it fails. -/
def navigationPosition (file : Option (List Char)) : Option (ChargerPosition F) :=
  (readFile json file).bind Document.position?

/-- The file after a save of `p`. -/
def saveFile (p : ChargerPosition F) (file : Option (List Char)) : SaveEnd → Option (List Char)
  | .notOpened => file
  | .broken written => some ((json.dump p).take written)
  | .complete => some (json.dump p)

def saveChargerPosition (p : ChargerPosition F) (save : SaveEnd) (s : ChargerNode F) :
    ChargerNode F :=
  match save with
  | .complete => { s with file := saveFile json p s.file save, saved := some p, failed := [] }
  | _ => { s with file := saveFile json p s.file save, failed := p :: s.failed }

def positionUpdateCallback (p : ChargerPosition F) (save : SaveEnd) (dies : Bool)
    (s : ChargerNode F) : ChargerNode F :=
  let s := saveChargerPosition json p save
    { s with jsonData := some p, last := some ⟨p, s.file, save⟩ }
  if dies then { s with jsonData := none } else { s with marker := some p }

/-- The marker at the end of the constructor needs all four keys. -/
def ChargerNode.step [Zero F] [One F] (s : ChargerNode F) : ChargerEvent F → Option (ChargerNode F)
  | .startUp =>
    match s.jsonData with
    | some _ => none
    | none =>
      match (loadChargerPosition json s.file).position? with
      | some p => some { s with jsonData := some p, marker := some p }
      | none => some s
  | .update topic save dies => s.jsonData.map fun _ => positionUpdateCallback json topic save dies s
  | .timer => s.jsonData.map fun p => { s with marker := some p }
  | .navigate => s.jsonData.map fun p =>
    match navigationPosition json s.file with
    | some q => { s with goals := s.goals ++ [⟨q, p, s.marker, s.received⟩] }
    | none => s
  | .die => s.jsonData.map fun _ => { s with jsonData := none }

/-- Before the first start.  A position in the file counts as saved. -/
def ChargerNode.boot (file : Option (List Char)) : ChargerNode F where
  file := file
  saved := navigationPosition json file

end Node

/-! ## Files -/

section Files

variable (json : Json F)

theorem navigationPosition_dump (p : ChargerPosition F) :
    navigationPosition json (some (json.dump p)) = some p := by
  simp [navigationPosition, readFile, json.load_dump]

/-- A text cut off is no position; one that is only called so is. -/
theorem navigationPosition_broken (p : ChargerPosition F) (written : Nat) :
    navigationPosition json (some ((json.dump p).take written)) =
      if (json.dump p).length ≤ written then some p else none := by
  split_ifs with h
  · rw [List.take_of_length_le h, navigationPosition_dump]
  · simp [navigationPosition, readFile, json.load_truncated p written (Nat.lt_of_not_le h)]

/-- What navigation can use, start-up loads. -/
theorem loadFile_of_navigationPosition {file : Option (List Char)} {p : ChargerPosition F}
    (h : navigationPosition json file = some p) : loadFile json file = some p.document := by
  obtain ⟨d, hd, hp⟩ := Option.bind_eq_some_iff.mp h
  rw [document_of_position? hp] at hd
  unfold loadFile
  rw [hd]
  rfl

theorem loadChargerPosition_of_navigationPosition [Zero F] [One F] {file : Option (List Char)}
    {p : ChargerPosition F} (h : navigationPosition json file = some p) :
    (loadChargerPosition json file).position? = some p := by
  unfold loadChargerPosition
  rw [loadFile_of_navigationPosition json h]
  rfl

end Files

theorem startUp_cases [Zero F] [One F] (json : Json F) {s s' : ChargerNode F}
    (h : s.step json .startUp = some s') :
    (∃ p, (loadChargerPosition json s.file).position? = some p ∧
      s' = { s with jsonData := some p, marker := some p }) ∨
    ((loadChargerPosition json s.file).position? = none ∧ s.jsonData = none ∧ s' = s) := by
  simp only [ChargerNode.step] at h
  cases hdata : s.jsonData with
  | some p =>
    rw [hdata] at h
    cases h
  | none =>
    rw [hdata] at h
    cases hload : (loadChargerPosition json s.file).position? with
    | some p =>
      rw [hload] at h
      exact Or.inl ⟨p, rfl, (Option.some.inj h).symm⟩
    | none =>
      rw [hload] at h
      exact Or.inr ⟨rfl, rfl, (Option.some.inj h).symm⟩

/-- Each goal is one navigation whose file could be read. -/
theorem navigate_cases [Zero F] [One F] (json : Json F) {s s' : ChargerNode F}
    (h : s.step json .navigate = some s') :
    ∃ p, s.jsonData = some p ∧
      ((∃ q, navigationPosition json s.file = some q ∧
        s' = { s with goals := s.goals ++ [⟨q, p, s.marker, s.received⟩] }) ∨
      (navigationPosition json s.file = none ∧ s' = s)) := by
  obtain ⟨p, hp, rfl⟩ := Option.map_eq_some_iff.mp h
  refine ⟨p, hp, ?_⟩
  cases hfile : navigationPosition json s.file with
  | some q => exact Or.inl ⟨q, rfl, rfl⟩
  | none => exact Or.inr ⟨rfl, rfl⟩

/-! ## Survival -/

section Survival

variable (json : Json F)

/-- Once a position is saved, both readers of the file get it, or one whose save has failed
since. -/
def Survives (s : ChargerNode F) : Prop :=
  ∀ p, s.saved = some p → ∃ q ∈ p :: s.failed,
    navigationPosition json s.file = some q ∧ loadFile json s.file = some q.document

/-- No save breaks off inside the text, once a position is saved. -/
def Unbroken (s : ChargerNode F) : ChargerEvent F → Prop
  | .update topic (.broken written) _ => s.saved = none ∨ (json.dump topic).length ≤ written
  | _ => True

theorem survives_boot (file : Option (List Char)) : Survives json (ChargerNode.boot json file) :=
  fun p h => ⟨p, List.mem_cons_self, h, loadFile_of_navigationPosition json h⟩

/-- Only the file and the record of the saves matter. -/
theorem survives_congr {s s' : ChargerNode F} (hfile : s'.file = s.file)
    (hsaved : s'.saved = s.saved) (hfailed : s.failed ⊆ s'.failed) (h : Survives json s) :
    Survives json s' := by
  intro p hp
  rw [hsaved] at hp
  obtain ⟨q, hq, hread⟩ := h p hp
  rw [hfile]
  exact ⟨q, List.cons_subset_cons p hfailed hq, hread⟩

theorem survives_of_written {s : ChargerNode F} {p : ChargerPosition F}
    (hfile : s.file = some (json.dump p)) (hp : s.saved = some p ∨ p ∈ s.failed) :
    Survives json s := by
  intro p0 hp0
  rw [hfile]
  refine ⟨p, ?_, navigationPosition_dump json p,
    loadFile_of_navigationPosition json (navigationPosition_dump json p)⟩
  rcases hp with hp | hp
  · obtain rfl := Option.some.inj (hp0.symm.trans hp)
    exact List.mem_cons_self
  · exact List.mem_cons_of_mem _ hp

@[simp] theorem positionUpdateCallback_file (p : ChargerPosition F) (save : SaveEnd) (dies : Bool)
    (s : ChargerNode F) :
    (positionUpdateCallback json p save dies s).file = saveFile json p s.file save := by
  cases save <;> cases dies <;> rfl

@[simp] theorem positionUpdateCallback_last (p : ChargerPosition F) (save : SaveEnd)
    (dies : Bool) (s : ChargerNode F) :
    (positionUpdateCallback json p save dies s).last = some ⟨p, s.file, save⟩ := by
  cases save <;> cases dies <;> rfl

@[simp] theorem positionUpdateCallback_goals (p : ChargerPosition F) (save : SaveEnd)
    (dies : Bool) (s : ChargerNode F) :
    (positionUpdateCallback json p save dies s).goals = s.goals := by
  cases save <;> cases dies <;> rfl

@[simp] theorem positionUpdateCallback_jsonData (p : ChargerPosition F) (save : SaveEnd)
    (dies : Bool) (s : ChargerNode F) :
    (positionUpdateCallback json p save dies s).jsonData = if dies then none else some p := by
  cases save <;> cases dies <;> rfl

@[simp] theorem positionUpdateCallback_marker (p : ChargerPosition F) (save : SaveEnd)
    (dies : Bool) (s : ChargerNode F) :
    (positionUpdateCallback json p save dies s).marker = if dies then s.marker else some p := by
  cases save <;> cases dies <;> rfl

theorem positionUpdateCallback_saved (p : ChargerPosition F) (save : SaveEnd) (dies : Bool)
    (s : ChargerNode F) (h : save ≠ .complete) :
    (positionUpdateCallback json p save dies s).saved = s.saved ∧
      (positionUpdateCallback json p save dies s).failed = p :: s.failed := by
  cases save with
  | complete => exact absurd rfl h
  | notOpened => cases dies <;> exact ⟨rfl, rfl⟩
  | broken written => cases dies <;> exact ⟨rfl, rfl⟩

/-- What one update does to a file that survives. -/
theorem survives_update (p : ChargerPosition F) (save : SaveEnd) (dies : Bool) (s : ChargerNode F)
    (h : Survives json s) :
    Survives json (positionUpdateCallback json p save dies s) ↔
      Unbroken json s (.update p save dies) := by
  cases save with
  | notOpened =>
    obtain ⟨hsaved, hfailed⟩ := positionUpdateCallback_saved json p .notOpened dies s nofun
    refine iff_of_true (survives_congr json ?_ hsaved ?_ h) trivial
    · exact positionUpdateCallback_file json p .notOpened dies s
    · rw [hfailed]
      exact List.subset_cons_self p s.failed
  | broken written =>
    obtain ⟨hsaved, hfailed⟩ := positionUpdateCallback_saved json p (.broken written) dies s nofun
    have hfile := positionUpdateCallback_file json p (.broken written) dies s
    by_cases hlen : (json.dump p).length ≤ written
    · refine iff_of_true (survives_of_written json (p := p) ?_ (Or.inr ?_)) (Or.inr hlen)
      · rw [hfile, saveFile, List.take_of_length_le hlen]
      · rw [hfailed]
        exact List.mem_cons_self
    · have hlost : navigationPosition json (positionUpdateCallback json p (.broken written) dies
          s).file = none := by
        rw [hfile, saveFile, navigationPosition_broken, if_neg hlen]
      constructor
      · intro hs
        refine Or.inl (Option.eq_none_iff_forall_ne_some.mpr fun p0 hp0 => ?_)
        obtain ⟨q, -, hq, -⟩ := hs p0 (hsaved.trans hp0)
        rw [hlost] at hq
        cases hq
      · rintro (hnone | hle) p0 hp0
        · rw [hsaved, hnone] at hp0
          cases hp0
        · exact absurd hle hlen
  | complete =>
    refine iff_of_true (survives_of_written json (p := p) ?_ (Or.inl ?_)) trivial
    · exact positionUpdateCallback_file json p .complete dies s
    · cases dies <;> rfl

theorem survives_step [Zero F] [One F] (s : ChargerNode F) (e : ChargerEvent F)
    (s' : ChargerNode F) (h : Survives json s) (hs : s.step json e = some s') :
    Survives json s' ↔ Unbroken json s e := by
  cases e with
  | startUp =>
    obtain ⟨p, -, rfl⟩ | ⟨-, -, rfl⟩ := startUp_cases json hs
    · exact iff_of_true h trivial
    · exact iff_of_true h trivial
  | update topic save dies =>
    obtain ⟨-, -, rfl⟩ := Option.map_eq_some_iff.mp hs
    exact survives_update json topic save dies s h
  | timer =>
    obtain ⟨p, -, rfl⟩ := Option.map_eq_some_iff.mp hs
    exact iff_of_true h trivial
  | navigate =>
    obtain ⟨p, -, ⟨q, -, rfl⟩ | ⟨-, rfl⟩⟩ := navigate_cases json hs
    · exact iff_of_true h trivial
    · exact iff_of_true h trivial
  | die =>
    obtain ⟨p, -, rfl⟩ := Option.map_eq_some_iff.mp hs
    exact iff_of_true h trivial

/-- **Survival** in every state of a run is that no save of it breaks off in the text. -/
theorem survives_iff [Zero F] [One F] (file : Option (List Char)) (es : List (ChargerEvent F)) :
    Throughout (ChargerNode.step json) (Survives json) es (ChargerNode.boot json file) ↔
      Along (ChargerNode.step json) (Unbroken json) es (ChargerNode.boot json file) :=
  throughout_iff_along (I := fun _ => True) (fun _ _ _ _ _ => trivial)
    (fun s e s' _ h hs => survives_step json s e s' h hs) es _ trivial (survives_boot json file)

def storedPosition : ChargerPosition UnitFloat := ⟨.one, .zero, .zero, .one⟩

def movedPosition : ChargerPosition UnitFloat := ⟨.one, .one, .zero, .one⟩

def storedFile : Option (List Char) := some (unitText.json.dump storedPosition)

/-- A save that completes, one that fails at `open`, and a start after them. -/
def restartedRun : List (ChargerEvent UnitFloat) :=
  [.startUp, .update movedPosition .complete false, .timer, .update movedPosition .notOpened true,
    .startUp, .navigate]

theorem survives_iff_restarted :
    Throughout (ChargerNode.step unitText.json) (Survives unitText.json) restartedRun
        (ChargerNode.boot unitText.json storedFile) ↔
      Along (ChargerNode.step unitText.json) (Unbroken unitText.json) restartedRun
        (ChargerNode.boot unitText.json storedFile) :=
  survives_iff unitText.json storedFile restartedRun

/-- The write stops after five characters: the stored position is gone. -/
theorem not_survives_broken :
    ¬ ∀ (file : Option (List Char)) (es : List (ChargerEvent UnitFloat)),
      Throughout (ChargerNode.step unitText.json) (Survives unitText.json) es
        (ChargerNode.boot unitText.json file) := by
  intro h
  have hrun : ∃ s, exec (ChargerNode.step unitText.json)
      [.startUp, .update movedPosition (.broken 5) false]
      (ChargerNode.boot unitText.json storedFile) = some s ∧ s.saved = some storedPosition ∧
        navigationPosition unitText.json s.file = none := by
    refine ⟨_, rfl, ?_, ?_⟩ <;> decide +kernel
  obtain ⟨s, hs, hsaved, hlost⟩ := hrun
  obtain ⟨q, -, hq, -⟩ := (h storedFile _).last hs storedPosition hsaved
  rw [hlost] at hq
  cases hq

end Survival

/-! ## Agreement -/

section Agreement

variable (json : Json F)

/-- The goal is computed from the position in memory, which is the one on the marker, and the
one most recently received if there was any. -/
structure ChargerGoal.Agrees (g : ChargerGoal F) : Prop where
  memory : g.used = g.jsonData
  marker : g.marker = some g.jsonData
  received : ∀ r, g.received = some r → g.used = r

/-- Every goal so far agrees with what was shown when it was computed. -/
def Displayed (s : ChargerNode F) : Prop := ∀ g ∈ s.goals, g.Agrees

/-- No navigation follows an update whose save failed at `open` while the file held another
position, before the next update. -/
def Recorded (s : ChargerNode F) : ChargerEvent F → Prop
  | .navigate => ∀ u, s.last = some u → u.save = .notOpened →
      ∀ q, navigationPosition json u.found = some q → q = u.topic
  | _ => True

/-- The file is as the last update left it.  What is in memory is on the marker, and, where
the file can be used, came from there or was received last. -/
structure Kept (s : ChargerNode F) : Prop where
  file : ∀ u, s.last = some u → s.file = saveFile json u.topic u.found u.save
  shown : ∀ p, s.jsonData = some p → s.marker = some p
  memory : ∀ p q, s.jsonData = some p → navigationPosition json s.file = some q →
    p = q ∨ s.received = some p

theorem kept_boot (file : Option (List Char)) : Kept json (ChargerNode.boot json file) where
  file := nofun
  shown := nofun
  memory := nofun

theorem Kept.down {s : ChargerNode F} (h : Kept json s) :
    Kept json { s with jsonData := none } where
  file := h.file
  shown := nofun
  memory := nofun

theorem kept_update (p : ChargerPosition F) (save : SaveEnd) (dies : Bool) (s : ChargerNode F) :
    Kept json (positionUpdateCallback json p save dies s) where
  file := by
    intro u hu
    obtain rfl : ⟨p, s.file, save⟩ = u := by simpa using hu
    exact positionUpdateCallback_file json p save dies s
  shown := by
    intro p' hp'
    cases dies with
    | true => simp at hp'
    | false => simpa using hp'
  memory := by
    intro p' q hp' _
    refine Or.inr ?_
    cases dies with
    | true => simp at hp'
    | false => simpa [ChargerNode.received] using hp'

/-- A start shows what it loads, the position of the file where that can be used. -/
theorem kept_startUp [Zero F] [One F] {s s' : ChargerNode F} (h : Kept json s)
    (hs : s.step json .startUp = some s') : Kept json s' := by
  obtain ⟨p, hload, rfl⟩ | ⟨-, -, rfl⟩ := startUp_cases json hs
  · refine ⟨h.file, fun _ hp => hp, fun p' q hp' hq => Or.inl ?_⟩
    have hq' := loadChargerPosition_of_navigationPosition json hq
    exact (Option.some.inj hp').symm.trans (Option.some.inj (hload.symm.trans hq'))
  · exact h

theorem kept_step [Zero F] [One F] (s : ChargerNode F) (e : ChargerEvent F) (s' : ChargerNode F)
    (h : Kept json s) (hs : s.step json e = some s') : Kept json s' := by
  cases e with
  | startUp => exact kept_startUp json h hs
  | update topic save dies =>
    obtain ⟨-, -, rfl⟩ := Option.map_eq_some_iff.mp hs
    exact kept_update json topic save dies s
  | timer =>
    obtain ⟨p, hp, rfl⟩ := Option.map_eq_some_iff.mp hs
    exact ⟨h.file, fun p' hp' => hp.symm.trans hp', h.memory⟩
  | navigate =>
    obtain ⟨p, -, ⟨q, -, rfl⟩ | ⟨-, rfl⟩⟩ := navigate_cases json hs
    · exact ⟨h.file, h.shown, h.memory⟩
    · exact h
  | die =>
    obtain ⟨p, -, rfl⟩ := Option.map_eq_some_iff.mp hs
    exact h.down

/-- A save that gets past `open` leaves its own position, or none that can be read. -/
theorem position_of_opened {p q : ChargerPosition F} {file : Option (List Char)} {save : SaveEnd}
    (hsave : save ≠ .notOpened)
    (hq : navigationPosition json (saveFile json p file save) = some q) : q = p := by
  cases save with
  | notOpened => exact absurd rfl hsave
  | broken written =>
    rw [saveFile, navigationPosition_broken] at hq
    split_ifs at hq
    exact (Option.some.inj hq).symm
  | complete =>
    rw [saveFile, navigationPosition_dump] at hq
    exact (Option.some.inj hq).symm

theorem agrees_iff {s : ChargerNode F} {p q : ChargerPosition F} (h : Kept json s)
    (hp : s.jsonData = some p) (hq : navigationPosition json s.file = some q) :
    (⟨q, p, s.marker, s.received⟩ : ChargerGoal F).Agrees ↔ Recorded json s .navigate := by
  constructor
  · intro hagrees u hu hsave q' hq'
    have hfile : s.file = u.found := by rw [h.file u hu, hsave, saveFile]
    rw [hfile] at hq
    obtain rfl := Option.some.inj (hq.symm.trans hq')
    exact hagrees.received u.topic (by rw [ChargerNode.received, hu, Option.map_some])
  · intro hrec
    have hreceived : ∀ r, s.received = some r → q = r := by
      intro r hr
      obtain ⟨u, hu, rfl⟩ := Option.map_eq_some_iff.mp hr
      have hfile := h.file u hu
      rw [hfile] at hq
      by_cases hsave : u.save = .notOpened
      · rw [hsave, saveFile] at hq
        exact hrec u hu hsave q hq
      · exact position_of_opened json hsave hq
    refine ⟨?_, h.shown p hp, hreceived⟩
    obtain hpq | hr := h.memory p q hp hq
    · exact hpq.symm
    · exact hreceived p hr

/-- Where the file cannot be read, no goal is computed, and the condition asks nothing. -/
theorem recorded_of_unreadable {s : ChargerNode F} (h : Kept json s)
    (hfile : navigationPosition json s.file = none) : Recorded json s .navigate := by
  intro u hu hsave q hq
  rw [h.file u hu, hsave, saveFile, hq] at hfile
  cases hfile

theorem displayed_step [Zero F] [One F] (s : ChargerNode F) (e : ChargerEvent F)
    (s' : ChargerNode F) (hkept : Kept json s) (h : Displayed s) (hs : s.step json e = some s') :
    Displayed s' ↔ Recorded json s e := by
  cases e with
  | startUp =>
    obtain ⟨p, -, rfl⟩ | ⟨-, -, rfl⟩ := startUp_cases json hs
    · exact iff_of_true h trivial
    · exact iff_of_true h trivial
  | update topic save dies =>
    obtain ⟨-, -, rfl⟩ := Option.map_eq_some_iff.mp hs
    refine iff_of_true (fun g hg => h g ?_) trivial
    rwa [positionUpdateCallback_goals] at hg
  | timer =>
    obtain ⟨p, -, rfl⟩ := Option.map_eq_some_iff.mp hs
    exact iff_of_true h trivial
  | navigate =>
    obtain ⟨p, hp, ⟨q, hq, rfl⟩ | ⟨hfile, rfl⟩⟩ := navigate_cases json hs
    · rw [← agrees_iff json hkept hp hq]
      constructor
      · intro hall
        exact hall _ (List.mem_append_right _ List.mem_cons_self)
      · intro hnew g hg
        rcases List.mem_append.mp hg with hold | hg
        · exact h g hold
        · obtain rfl := List.mem_singleton.mp hg
          exact hnew
    · exact iff_of_true h (recorded_of_unreadable json hkept hfile)
  | die =>
    obtain ⟨p, -, rfl⟩ := Option.map_eq_some_iff.mp hs
    exact iff_of_true h trivial

/-- **Agreement** of every goal of a run with what was shown when it was computed. -/
theorem displayed_iff [Zero F] [One F] (file : Option (List Char)) (es : List (ChargerEvent F)) :
    Throughout (ChargerNode.step json) Displayed es (ChargerNode.boot json file) ↔
      Along (ChargerNode.step json) (Recorded json) es (ChargerNode.boot json file) :=
  throughout_iff_along (kept_step json)
    (fun s e s' hkept h hs => displayed_step json s e s' hkept h hs) es _ (kept_boot json file)
    nofun

/-- The run's one goal is that of the position it was sent, shown and kept on file. -/
theorem displayed_iff_restarted :
    (Throughout (ChargerNode.step unitText.json) Displayed restartedRun
        (ChargerNode.boot unitText.json storedFile) ↔
      Along (ChargerNode.step unitText.json) (Recorded unitText.json) restartedRun
        (ChargerNode.boot unitText.json storedFile)) ∧
    (exec (ChargerNode.step unitText.json) restartedRun
        (ChargerNode.boot unitText.json storedFile)).map ChargerNode.goals =
      some [⟨movedPosition, movedPosition, some movedPosition, some movedPosition⟩] :=
  ⟨displayed_iff unitText.json storedFile restartedRun, by decide +kernel⟩

/-- The file cannot be opened for writing: the marker moves, the goal does not. -/
theorem not_displayed_notOpened :
    ¬ ∀ (file : Option (List Char)) (es : List (ChargerEvent UnitFloat)),
      Throughout (ChargerNode.step unitText.json) Displayed es
        (ChargerNode.boot unitText.json file) := by
  intro h
  have hrun : ∃ s, exec (ChargerNode.step unitText.json)
      [.startUp, .update movedPosition .notOpened false, .navigate]
      (ChargerNode.boot unitText.json storedFile) = some s ∧
        s.goals = [⟨storedPosition, movedPosition, some movedPosition, some movedPosition⟩] := by
    refine ⟨_, rfl, ?_⟩
    decide +kernel
  obtain ⟨s, hs, hgoals⟩ := hrun
  have hagrees := (h storedFile _).last hs _ (hgoals ▸ List.mem_cons_self)
  exact absurd hagrees.memory (by decide)

end Agreement

end AgvPro
