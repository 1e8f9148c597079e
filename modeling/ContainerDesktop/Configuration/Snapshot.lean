import ContainerDesktop.Configuration.ConfigurationService

/-!
# The snapshot and the file

A subscriber of `ConfigurationChanged` may itself edit the configuration, load
and save.  `Call` is a call of the service with all that its subscribers do while
it runs, so a nested save is a call inside a handler of the outer one, to any
depth.  Running calls answers the states in which somebody can look at the
service: inside a handler before and after each of its actions, and after each
outermost call.

`inSync_iff` says in which runs the snapshot agrees with the file in all of these
states.  The induction is on the call tree.  Its invariant is that the snapshot
agrees before each call, and the two cases that break it are a save that raises
the event, since the snapshot follows after the last handler, and a load whose
handlers save, since it then stores what it had read before them.
-/

namespace ContainerDesktop.Configuration

open ContainerDesktopConfiguration (new)

/-- A call, with the actions of each handler that it notifies. -/
inductive Call where
  | edit (c : ContainerDesktopConfiguration)
  | load (handlers : List (List Call))
  | saveAndNotify (notify : Bool) (handlers : List (List Call))

namespace ConfigurationService

section Runs

variable {J : JsonConvert} (L : CompareLogic) (isValid : ContainerDesktopConfiguration → Bool)

mutual

/-- One call: the states that its handlers see, and the state after it. -/
def runCall : Call → ConfigurationService J → List (ConfigurationService J) × ConfigurationService J
  | .edit c, s => ([], { s with configuration := c })
  | .load handlers, s => load L true (fun s => runHandlers handlers s) s
  | .saveAndNotify notify handlers, s =>
    saveAndNotify L isValid notify (fun s => runHandlers handlers s) s

/-- The handlers of an event, one after the other. -/
def runHandlers : List (List Call) → ConfigurationService J →
    List (ConfigurationService J) × ConfigurationService J
  | [], s => ([], s)
  | h :: hs, s =>
    let first := runCalls h s
    let rest := runHandlers hs first.2
    (s :: first.1 ++ rest.1, rest.2)

/-- Calls, one after the other. -/
def runCalls : List Call → ConfigurationService J →
    List (ConfigurationService J) × ConfigurationService J
  | [], s => ([], s)
  | c :: cs, s =>
    let first := runCall c s
    let rest := runCalls cs first.2
    (first.1 ++ first.2 :: rest.1, rest.2)

end

/-- The configuration in `config.json`. -/
def contents (s : ConfigurationService J) : Option ContainerDesktopConfiguration :=
  s.file.map fun json => J.populateObject json new

/-- The snapshot is the content of the file, and so `isChanged` compares with the file. -/
structure InSync (s : ConfigurationService J) : Prop where
  snapshot : s.loadedConfiguration = s.contents
  changed : isChanged L s = true ↔ s.contents ≠ some s.configuration

mutual

/-- The calls that keep the snapshot in step: no save that writes notifies anybody, and no
handler of a load that found a difference leaves another file behind. -/
def CleanCall : Call → ConfigurationService J → Prop
  | .edit _, _ => True
  | .load handlers, s =>
    match s.file with
    | none => True
    | some json =>
      s.configuration = J.populateObject json new ∨
        CleanHandlers handlers { s with configuration := J.populateObject json s.configuration } ∧
          (runHandlers L isValid handlers
            { s with configuration := J.populateObject json s.configuration }).2.contents
              = s.contents
  | .saveAndNotify notify handlers, s =>
    notify = false ∨ handlers = [] ∨ isValid s.configuration = false ∨
      s.loadedConfiguration = some s.configuration

def CleanHandlers : List (List Call) → ConfigurationService J → Prop
  | [], _ => True
  | h :: hs, s => CleanCalls h s ∧ CleanHandlers hs (runCalls L isValid h s).2

def CleanCalls : List Call → ConfigurationService J → Prop
  | [], _ => True
  | c :: cs, s => CleanCall c s ∧ CleanCalls cs (runCall L isValid c s).2

end

/-! ## States in step -/

theorem inSync_iff {s : ConfigurationService J} :
    InSync L s ↔ s.loadedConfiguration = s.contents := by
  refine ⟨fun h => h.snapshot, fun h => ⟨h, ?_⟩⟩
  rw [← h, ← Bool.not_eq_false, ne_eq, isChanged_eq_false]

/-- After a save the file holds the configuration. -/
theorem contents_serialize (s : ConfigurationService J) (c : ContainerDesktopConfiguration) :
    contents { s with file := some (J.serializeObject c) } = some c := by
  show some (J.populateObject (J.serializeObject c) new) = some c
  rw [J.populate_serialize, ContainerDesktopConfiguration.new_populate]

/-- Editing does not touch the snapshot and the file. -/
theorem inSync_edit {s : ConfigurationService J} (h : InSync L s)
    (c : ContainerDesktopConfiguration) : InSync L { s with configuration := c } :=
  (inSync_iff L).mpr h.snapshot

/-- The snapshot is what the file holds once a save or load has stored it. -/
theorem inSync_store {s : ConfigurationService J} {json : J.Text} :
    InSync L { s with loadedConfiguration := some (J.populateObject json new) } ↔
      s.contents = some (J.populateObject json new) :=
  (inSync_iff L).trans eq_comm

/-- After the last action of some calls, the service is as the last of the states seen. -/
theorem inSync_runCalls {cs : List Call} : ∀ {s : ConfigurationService J}, InSync L s →
    (∀ x ∈ (runCalls L isValid cs s).1, InSync L x) → InSync L (runCalls L isValid cs s).2 := by
  induction cs with
  | nil => intro s h _; exact h
  | cons c cs ih =>
    intro s _ hseen
    exact ih (hseen _ (List.mem_append_right _ List.mem_cons_self)) fun x hx =>
      hseen x (List.mem_append_right _ (List.mem_cons_of_mem _ hx))

/-! ## One call -/

/-- A save is seen in step unless it writes and notifies. -/
theorem saveAndNotify_inSync (notify : Bool) (handlers : List (List Call))
    {s : ConfigurationService J} (h : InSync L s) :
    ((∀ x ∈ (runCall L isValid (.saveAndNotify notify handlers) s).1, InSync L x) ∧
        InSync L (runCall L isValid (.saveAndNotify notify handlers) s).2) ↔
      CleanCall L isValid (.saveAndNotify notify handlers) s := by
  simp only [runCall, CleanCall, saveAndNotify]
  by_cases hvalid : isValid s.configuration = true
  · rw [if_pos hvalid]
    by_cases heq : L.areEqual s.loadedConfiguration (some s.configuration) = true
    · rw [if_pos heq]
      exact iff_of_true ⟨fun x hx => absurd hx List.not_mem_nil, h⟩
        (.inr (.inr (.inr ((L.areEqual_iff _ _).mp heq))))
    · rw [if_neg heq]
      have hne : s.loadedConfiguration ≠ some s.configuration :=
        fun he => heq ((L.areEqual_iff _ _).mpr he)
      cases notify with
      | false =>
        refine iff_of_true ⟨fun x hx => absurd hx List.not_mem_nil, ?_⟩ (.inl rfl)
        exact (inSync_store L).mpr rfl
      | true =>
        cases handlers with
        | nil =>
          refine iff_of_true ⟨fun x hx => absurd hx List.not_mem_nil, ?_⟩ (.inr (.inl rfl))
          exact (inSync_store L).mpr rfl
        | cons actions handlers =>
          -- the first handler sees the new file and the old snapshot
          refine iff_of_false (fun hseen => ?_) fun hc => ?_
          · have hfirst := (hseen.1 _ List.mem_cons_self).snapshot
            rw [contents_serialize] at hfirst
            exact hne hfirst
          · rcases hc with hc | hc | hc | hc
            · exact absurd hc (by decide)
            · exact absurd hc (List.cons_ne_nil _ _)
            · exact absurd (hvalid.symm.trans hc) (by decide)
            · exact hne hc
  · rw [if_neg hvalid]
    exact iff_of_true ⟨fun x hx => absurd hx List.not_mem_nil, h⟩
      (.inr (.inr (.inl (Bool.not_eq_true _ ▸ hvalid))))

/-- A load is seen in step unless a handler sees otherwise or leaves another file. -/
theorem load_inSync (handlers : List (List Call)) {s : ConfigurationService J} (h : InSync L s)
    (ih : ∀ s : ConfigurationService J, InSync L s →
      ((∀ x ∈ (runHandlers L isValid handlers s).1, InSync L x) ↔
        CleanHandlers L isValid handlers s)) :
    ((∀ x ∈ (runCall L isValid (.load handlers) s).1, InSync L x) ∧
        InSync L (runCall L isValid (.load handlers) s).2) ↔
        CleanCall L isValid (.load handlers) s := by
  obtain ⟨configuration, snapshot, file⟩ := s
  cases file with
  | none => exact iff_of_true ⟨fun x hx => absurd hx List.not_mem_nil, h⟩ trivial
  | some json =>
    simp only [runCall, CleanCall, load]
    by_cases heq : configuration = J.populateObject json new
    · have hare : L.areEqual (some configuration) (some (J.populateObject json new)) = true :=
        (L.areEqual_iff _ _).mpr (congrArg some heq)
      simp only [if_pos hare]
      refine iff_of_true ⟨fun x hx => absurd hx List.not_mem_nil, ?_⟩ (.inl heq)
      exact (inSync_iff L).mpr rfl
    · have hare : ¬ L.areEqual (some configuration) (some (J.populateObject json new)) = true :=
        fun he => heq (Option.some.inj ((L.areEqual_iff _ _).mp he))
      simp only [if_neg hare, if_true, or_iff_right heq]
      rw [inSync_store, ih _ (inSync_edit L h _)]
      rfl

/-! ## Runs -/

mutual

theorem runCall_inSync : ∀ (c : Call) (s : ConfigurationService J), InSync L s →
    (((∀ x ∈ (runCall L isValid c s).1, InSync L x) ∧ InSync L (runCall L isValid c s).2) ↔
      CleanCall L isValid c s)
  | .edit c, _, h => iff_of_true ⟨fun _ hx => absurd hx List.not_mem_nil, inSync_edit L h c⟩ trivial
  | .load handlers, _, h => load_inSync L isValid handlers h (runHandlers_inSync handlers)
  | .saveAndNotify notify handlers, _, h => saveAndNotify_inSync L isValid notify handlers h

theorem runHandlers_inSync : ∀ (hs : List (List Call)) (s : ConfigurationService J), InSync L s →
    ((∀ x ∈ (runHandlers L isValid hs s).1, InSync L x) ↔ CleanHandlers L isValid hs s)
  | [], s, _ => iff_of_true (fun _ hx => absurd hx List.not_mem_nil) trivial
  | h :: hs, s, hs' => by
    have hcalls := runCalls_inSync h s hs'
    simp only [runHandlers, CleanHandlers, List.cons_append, List.forall_mem_cons,
      List.forall_mem_append]
    rw [and_iff_right hs', hcalls]
    refine and_congr_right fun hclean => ?_
    exact runHandlers_inSync hs _ (inSync_runCalls L isValid hs' (hcalls.mpr hclean))

theorem runCalls_inSync : ∀ (cs : List Call) (s : ConfigurationService J), InSync L s →
    ((∀ x ∈ (runCalls L isValid cs s).1, InSync L x) ↔ CleanCalls L isValid cs s)
  | [], s, _ => iff_of_true (fun _ hx => absurd hx List.not_mem_nil) trivial
  | c :: cs, s, h => by
    have hcall := runCall_inSync c s h
    simp only [runCalls, CleanCalls, List.forall_mem_append, List.forall_mem_cons]
    rw [← and_assoc, hcall]
    refine and_congr_right fun hclean => ?_
    exact runCalls_inSync cs _ (hcall.mpr hclean).2

end

theorem init_inSync (file : Option J.Text) (saveOnInitialize : Bool) :
    InSync L (init L isValid file saveOnInitialize) := by
  cases file with
  | some json =>
    -- the file is loaded, and nobody is subscribed yet
    simp only [init, load, Option.isSome_some, if_true]
    split
    · exact (inSync_iff L).mpr rfl
    · exact (inSync_iff L).mpr rfl
  | none =>
    have hstart : InSync L (⟨new, none, none⟩ : ConfigurationService J) := (inSync_iff L).mpr rfl
    cases saveOnInitialize with
    | false => exact hstart
    | true => exact ((saveAndNotify_inSync L isValid false [] hstart).mpr (.inl rfl)).2

/-- **When the snapshot mirrors the file.**  From the constructor on, the snapshot agrees with
the file in every state that a handler sees or a call returns in, exactly when the calls
are clean. -/
theorem inSync_iff_clean (file : Option J.Text) (saveOnInitialize : Bool) (calls : List Call) :
    (∀ x ∈ (runCalls L isValid calls (init L isValid file saveOnInitialize)).1, InSync L x) ↔
      CleanCalls L isValid calls (init L isValid file saveOnInitialize) :=
  runCalls_inSync L isValid calls _ (init_inSync L isValid file saveOnInitialize)

end Runs

/-- While the settings page is told about a save, the snapshot is the one before it. -/
theorem saveAndNotify_out_of_sync :
    ¬ ∀ (J : JsonConvert) (L : CompareLogic) (isValid : ContainerDesktopConfiguration → Bool)
      (file : Option J.Text) (saveOnInitialize : Bool) (calls : List Call),
      ∀ x ∈ (runCalls L isValid calls (init L isValid file saveOnInitialize)).1, InSync L x := by
  intro h
  have hclean := (runCalls_inSync compareValues (fun _ => true) (J := plainJson)
    [.edit { new with portForwardingEnabled := true }, .saveAndNotify true [[]]] _
    (init_inSync compareValues _ (some new) true)).mp
    (h plainJson compareValues (fun _ => true) (some new) true _)
  rcases hclean.2.1 with hc | hc | hc | hc
  · exact absurd hc (by decide)
  · exact absurd hc (List.cons_ne_nil _ _)
  · exact absurd hc (by decide)
  · exact absurd hc (by decide)

end ConfigurationService

end ContainerDesktop.Configuration
