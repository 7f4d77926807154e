import ScriptAtlas.Proofs.Snapshots

/-!
# Questions of several clients

Clients that share an engine ask at the same time. A question looks up its root, builds an index if none
is kept, and keeps what it has built; between these steps other clients take theirs, files change, and
roots are dropped. A client that has built an index before its root is dropped and keeps it afterwards
brings the dropped index back.

* `System.step`, `System.run`: the steps of all clients, in any order;
* `System.run_question`: a question whose steps are not interrupted is a question to the engine;
* `System.AtHand`: the indexes that a question can still receive; a step adds only what it builds
  (`Does.atHand`), and so does a run (`atHand_run`, `answered_run`);
* `System.invalidate_keeps_iff`: dropping a root is not lost exactly when no client holds an index of the
  root that the files no longer give.
-/

namespace ScriptAtlas

open List Storage Project Query

theorem Engine.find?_insert (e : Engine) (key : Path) (idx : Index) :
    (e.insert key idx).find? key = some ((e.find? key).getD idx) := by
  cases h : e.find? key with
  | none => exact find?_insert_self h idx
  | some kept =>
    have hkept : (e.find? key).isSome = true := by simp [h]
    rw [insert, if_pos hkept]
    exact h

/-! ## Clients -/

/-- How far a client is with its question. Each client asks once; one that asks again is another. -/
inductive Client where
  | waiting
  /-- Has looked up its root and found nothing. -/
  | missed (key : Path)
  /-- Has built an index that it has not kept yet. -/
  | holding (key : Path) (idx : Index)
  | answered (key : Path) (answer : Except Failure Index)

/-- What can happen next: a step of a client, a change of a file, or a drop. -/
inductive Action where
  | lookUp (c : Nat) (root : Path)
  | build (c : Nat)
  | keep (c : Nat)
  | write (p : Path) (content : Content)
  | remove (p : Path)
  | invalidate (root : Path)
  | clear

/-- Files and an engine that clients share. -/
structure System where
  world : World
  clients : Nat → Client

namespace System

variable {s : System} {idx : Index} {root key : Path}

def new (files : FileSystem) (settings : Option Settings) : System :=
  ⟨World.new files settings, fun _ => .waiting⟩

def setClient (s : System) (c : Nat) (client : Client) : System :=
  { s with clients := Function.update s.clients c client }

/-- One action. A client that is not at that point of its question does nothing. -/
def step (s : System) : Action → System
  | .lookUp c root =>
    match s.clients c with
    | .waiting =>
      let key := s.world.key root
      match s.world.engine.find? key with
      | some idx => s.setClient c (.answered key (.ok idx))
      | none => s.setClient c (.missed key)
    | _ => s
  | .build c =>
    match s.clients c with
    | .missed key =>
      match buildIndex s.world.files s.world.engine.settings key with
      | .ok idx => s.setClient c (.holding key idx)
      | .error f => s.setClient c (.answered key (.error f))
    | _ => s
  | .keep c =>
    match s.clients c with
    | .holding key idx =>
      -- The first index that is kept wins: the answer is what stands under the key now.
      let engine := s.world.engine.insert key idx
      { s with world := { s.world with engine } }.setClient c
        (.answered key (.ok ((engine.find? key).getD idx)))
    | _ => s
  | .write p content => { s with world := s.world.write p content }
  | .remove p => { s with world := s.world.remove p }
  | .invalidate root => { s with world := s.world.invalidate root }
  | .clear => { s with world := s.world.clear }

def run (s : System) (actions : List Action) : System := actions.foldl step s

theorem run_concat (s : System) (actions : List Action) (a : Action) :
    s.run (actions ++ [a]) = (s.run actions).step a := by
  rw [run, foldl_append]
  rfl

theorem clients_setClient_self (s : System) (c : Nat) (client : Client) :
    (s.setClient c client).clients c = client := Function.update_self ..

theorem clients_setClient_of_ne (s : System) {c d : Nat} (h : d ≠ c) (client : Client) :
    (s.setClient c client).clients d = s.clients d := Function.update_of_ne h ..

/-! ## What one action does -/

section Steps

variable {c : Nat}

theorem step_lookUp_of_kept (hkey : s.world.key root = key) (h : s.clients c = .waiting)
    (hfind : s.world.engine.find? key = some idx) :
    s.step (.lookUp c root) = s.setClient c (.answered key (.ok idx)) := by
  simp only [step, h, hkey, hfind]

theorem step_lookUp_of_none (hkey : s.world.key root = key) (h : s.clients c = .waiting)
    (hfind : s.world.engine.find? key = none) :
    s.step (.lookUp c root) = s.setClient c (.missed key) := by
  simp only [step, h, hkey, hfind]

theorem step_build_of_ok (h : s.clients c = .missed key)
    (hbuild : buildIndex s.world.files s.world.engine.settings key = .ok idx) :
    s.step (.build c) = s.setClient c (.holding key idx) := by
  simp only [step, h, hbuild]

theorem step_build_of_error {f : Failure} (h : s.clients c = .missed key)
    (hbuild : buildIndex s.world.files s.world.engine.settings key = .error f) :
    s.step (.build c) = s.setClient c (.answered key (.error f)) := by
  simp only [step, h, hbuild]

theorem step_keep_of_holding (h : s.clients c = .holding key idx) :
    s.step (.keep c) =
      { s with world := { s.world with engine := s.world.engine.insert key idx } }.setClient c
        (.answered key (.ok ((s.world.engine.find? key).getD idx))) := by
  simp only [step, h, Engine.find?_insert, Option.getD_some]

/-- All that an action can do to a system. -/
inductive Does (s : System) : System → Prop
  | nothing : Does s s
  /-- Files change or roots are dropped. -/
  | changes {w : World} (hlinks : w.links = s.world.links)
      (hsettings : w.engine.settings = s.world.engine.settings)
      (hkept : ∀ key idx, w.engine.find? key = some idx → s.world.engine.find? key = some idx) :
      Does s { s with world := w }
  | finds (c : Nat) {key : Path} {idx : Index} (h : s.world.engine.find? key = some idx) :
      Does s (s.setClient c (.answered key (.ok idx)))
  | misses (c : Nat) (key : Path) : Does s (s.setClient c (.missed key))
  | builds (c : Nat) {key : Path} {idx : Index}
      (h : buildIndex s.world.files s.world.engine.settings key = .ok idx) :
      Does s (s.setClient c (.holding key idx))
  | fails (c : Nat) (key : Path) (f : Failure) : Does s (s.setClient c (.answered key (.error f)))
  | keeps {c : Nat} {key : Path} {idx : Index} (h : s.clients c = .holding key idx) :
      Does s ({ s with world := { s.world with engine := s.world.engine.insert key idx } }.setClient c
        (.answered key (.ok ((s.world.engine.find? key).getD idx))))

theorem does_step (s : System) (a : Action) : s.Does (s.step a) := by
  cases a with
  | lookUp c root =>
    cases hc : s.clients c with
    | waiting =>
      cases hfind : s.world.engine.find? (s.world.key root) with
      | some idx => exact step_lookUp_of_kept rfl hc hfind ▸ .finds c hfind
      | none => exact step_lookUp_of_none rfl hc hfind ▸ .misses c _
    | _ => simpa only [step, hc] using .nothing
  | build c =>
    cases hc : s.clients c with
    | missed key =>
      cases hbuild : buildIndex s.world.files s.world.engine.settings key with
      | ok idx => exact step_build_of_ok hc hbuild ▸ .builds c hbuild
      | error f => exact step_build_of_error hc hbuild ▸ .fails c key f
    | _ => simpa only [step, hc] using .nothing
  | keep c =>
    cases hc : s.clients c with
    | holding key idx => exact step_keep_of_holding hc ▸ .keeps hc
    | _ => simpa only [step, hc] using .nothing
  | write p content => exact .changes rfl rfl fun _ _ => id
  | remove p => exact .changes rfl rfl fun _ _ => id
  | invalidate root =>
    refine .changes rfl rfl fun key idx h => ?_
    by_cases hkey : s.world.key root = key
    · rw [World.invalidate, hkey, Engine.find?_erase_self] at h
      cases h
    · rwa [World.invalidate, Engine.find?_erase_of_ne _ hkey] at h
  | clear => exact .changes rfl rfl fun _ _ h => by cases h

theorem Does.settings_eq {s s' : System} (h : s.Does s') :
    s'.world.engine.settings = s.world.engine.settings := by
  cases h with
  | changes hlinks hsettings hkept => exact hsettings
  | keeps h => exact Engine.settings_insert ..
  | _ => rfl

theorem settings_run (s : System) (actions : List Action) :
    (s.run actions).world.engine.settings = s.world.engine.settings := by
  induction actions generalizing s with
  | nil => rfl
  | cons a rest ih => exact (ih (s.step a)).trans (s.does_step a).settings_eq

theorem Does.links_eq {s s' : System} (h : s.Does s') : s'.world.links = s.world.links := by
  cases h with
  | changes hlinks hsettings hkept => exact hlinks
  | _ => rfl

theorem links_run (s : System) (actions : List Action) :
    (s.run actions).world.links = s.world.links := by
  induction actions generalizing s with
  | nil => rfl
  | cons a rest ih => exact (ih (s.step a)).trans (s.does_step a).links_eq

/-- Without links the key of a root is its normal form at all times. -/
theorem key_of_links_none (h : s.world.links = .none) (root : Path) :
    s.world.key root = root.normalize := by
  rw [World.key, h, rootKey_none]

end Steps

theorem step_build_step_lookUp {c : Nat} (hkey : s.world.key root = key) (h : s.clients c = .waiting)
    (hfind : s.world.engine.find? key = none)
    (hbuild : buildIndex s.world.files s.world.engine.settings key = .ok idx) :
    (s.step (.lookUp c root)).step (.build c) = s.setClient c (.holding key idx) := by
  rw [step_lookUp_of_none hkey h hfind, step_build_of_ok (clients_setClient_self s c _) hbuild]
  simp only [setClient, Function.update_idem]

/-- The three steps of a question without anything between them are a question to the engine. -/
theorem run_question {c : Nat} (h : s.clients c = .waiting) (root : Path) :
    s.run [.lookUp c root, .build c, .keep c] =
      { s with world := s.world.step (.ask root) }.setClient c
        (.answered (s.world.key root) (s.world.engine.index s.world.files (s.world.key root)).1) := by
  simp only [run, foldl_cons, foldl_nil]
  obtain ⟨idx, hfind, hindex⟩ | ⟨hfind, idx, hbuild, hindex⟩ | ⟨hfind, f, hbuild, hindex⟩ :=
    s.world.engine.index_cases s.world.files (s.world.key root)
  · rw [step_lookUp_of_kept rfl h hfind]
    simp only [step, clients_setClient_self, World.step, hindex]
  · rw [step_build_step_lookUp rfl h hfind hbuild, step_keep_of_holding (clients_setClient_self s c _)]
    simp only [setClient, Function.update_idem, World.step, hindex, hfind, Option.getD_none]
  · rw [step_lookUp_of_none rfl h hfind,
      step_build_of_error (clients_setClient_self s c _) hbuild]
    simp only [step, setClient, Function.update_idem, Function.update_self, World.step, hindex]

/-! ## What a question can receive -/

/-- An index of a root that a question can receive without building it: it is kept, or a client is about
to keep it. -/
def AtHand (s : System) (key : Path) (idx : Index) : Prop :=
  s.world.engine.find? key = some idx ∨ ∃ c, s.clients c = .holding key idx

section AtHand

variable {c : Nat}

theorem clients_setClient_cases {c d : Nat} {client seen : Client}
    (h : (s.setClient c client).clients d = seen) : s.clients d = seen ∨ client = seen := by
  by_cases hdc : d = c
  · rw [hdc, clients_setClient_self] at h
    exact .inr h
  · exact .inl (clients_setClient_of_ne s hdc client ▸ h)

theorem atHand_setClient {client : Client} (h : (s.setClient c client).AtHand key idx)
    (hclient : client ≠ .holding key idx) : s.AtHand key idx := by
  rcases h with h | ⟨d, hd⟩
  · exact .inl h
  · exact .inr ⟨d, (clients_setClient_cases hd).resolve_right hclient⟩

theorem atHand_of_holding (h : s.clients c = .holding key idx) :
    s.AtHand key ((s.world.engine.find? key).getD idx) := by
  cases hfind : s.world.engine.find? key with
  | some kept => exact .inl hfind
  | none => exact .inr ⟨c, h⟩

/-- An index that is at hand after an action was so before, or it has just been built. -/
theorem Does.atHand {s' : System} (hdoes : s.Does s') (h : s'.AtHand key idx) :
    s.AtHand key idx ∨ buildIndex s.world.files s.world.engine.settings key = .ok idx := by
  cases hdoes with
  | nothing => exact .inl h
  | changes hlinks hsettings hkept => exact .inl (h.imp_left (hkept key idx))
  | finds c hfind => exact .inl (atHand_setClient h nofun)
  | misses c k => exact .inl (atHand_setClient h nofun)
  | fails c k f => exact .inl (atHand_setClient h nofun)
  | @builds c k i hbuild =>
    rcases h with h | ⟨d, hd⟩
    · exact .inl (.inl h)
    · rcases clients_setClient_cases hd with hd | hd
      · exact .inl (.inr ⟨d, hd⟩)
      · cases hd
        exact .inr hbuild
  | @keeps c k i hc =>
    rcases atHand_setClient h nofun with hfind | hheld
    · by_cases hk : k = key
      · subst hk
        rw [Engine.find?_insert, Option.some.injEq] at hfind
        exact .inl (hfind ▸ atHand_of_holding hc)
      · exact .inl (.inl (Engine.find?_insert_of_ne _ hk i ▸ hfind))
    · exact .inl (.inr hheld)

/-- An index that is an answer after an action was one before, or it was at hand. -/
theorem Does.answered {s' : System} (hdoes : s.Does s')
    (h : s'.clients c = .answered key (.ok idx)) :
    s.clients c = .answered key (.ok idx) ∨ s.AtHand key idx := by
  cases hdoes with
  | nothing => exact .inl h
  | changes hlinks hsettings hkept => exact .inl h
  | finds d hfind =>
    rcases clients_setClient_cases h with h | h
    · exact .inl h
    · cases h
      exact .inr (.inl hfind)
  | misses d k => exact .inl ((clients_setClient_cases h).resolve_right nofun)
  | fails d k f => exact .inl ((clients_setClient_cases h).resolve_right nofun)
  | builds d hbuild => exact .inl ((clients_setClient_cases h).resolve_right nofun)
  | keeps hd =>
    rcases clients_setClient_cases h with h | h
    · exact .inl h
    · cases h
      exact .inr (atHand_of_holding hd)

/-- There is a time up to the end of the actions at which the files give an index of the root. -/
def Gives (s : System) (key : Path) (actions : List Action) (idx : Index) : Prop :=
  ∃ earlier, earlier <+: actions ∧
    buildIndex (s.run earlier).world.files s.world.engine.settings key = .ok idx

theorem Gives.concat {actions : List Action} (h : s.Gives key actions idx) (a : Action) :
    s.Gives key (actions ++ [a]) idx := by
  obtain ⟨earlier, hprefix, hbuild⟩ := h
  exact ⟨earlier, hprefix.trans (prefix_append actions [a]), hbuild⟩

/-- What is at hand after a run was so before, or it has been built on the way. -/
theorem atHand_run (actions : List Action) (h : (s.run actions).AtHand key idx) :
    s.AtHand key idx ∨ s.Gives key actions idx := by
  induction actions using List.reverseRecOn with
  | nil => exact .inl h
  | append_singleton actions a ih =>
    rw [run_concat] at h
    rcases (does_step _ a).atHand h with h | hbuild
    · exact (ih h).imp_right (·.concat a)
    · rw [settings_run] at hbuild
      exact .inr ⟨actions, prefix_append actions [a], hbuild⟩

/-- A question that starts after some state receives an index that was at hand in that state, or one that
has been built since. -/
theorem answered_run (hc : s.clients c = .waiting) (actions : List Action)
    (h : (s.run actions).clients c = .answered key (.ok idx)) :
    s.AtHand key idx ∨ s.Gives key actions idx := by
  induction actions using List.reverseRecOn with
  | nil => exact nomatch hc.symm.trans h
  | append_singleton actions a ih =>
    rw [run_concat] at h
    rcases (does_step _ a).answered h with h | h
    · exact (ih h).imp_right (·.concat a)
    · exact (atHand_run actions h).imp_right (·.concat a)

end AtHand

/-! ## Dropping a root -/

theorem Does.exists_clients_eq {s s' : System} (h : s.Does s') :
    ∃ c, ∀ d, d ≠ c → s'.clients d = s.clients d := by
  cases h with
  | nothing => exact ⟨0, fun _ _ => rfl⟩
  | changes hlinks hsettings hkept => exact ⟨0, fun _ _ => rfl⟩
  | finds c hfind => exact ⟨c, fun d hd => clients_setClient_of_ne s hd _⟩
  | misses c key => exact ⟨c, fun d hd => clients_setClient_of_ne s hd _⟩
  | builds c hbuild => exact ⟨c, fun d hd => clients_setClient_of_ne s hd _⟩
  | fails c key f => exact ⟨c, fun d hd => clients_setClient_of_ne s hd _⟩
  | @keeps c key idx hc => exact ⟨c, fun d hd => clients_setClient_of_ne _ hd _⟩

theorem exists_waiting (start : FileSystem) (settings : Option Settings) (actions : List Action) :
    ∃ n, ∀ c, n ≤ c → ((System.new start settings).run actions).clients c = .waiting := by
  induction actions using List.reverseRecOn with
  | nil => exact ⟨0, fun _ _ => rfl⟩
  | append_singleton actions a ih =>
    obtain ⟨n, hn⟩ := ih
    rw [run_concat]
    obtain ⟨d, hd⟩ := (does_step ((System.new start settings).run actions) a).exists_clients_eq
    refine ⟨max n (d + 1), fun c hc => ?_⟩
    rw [hd c (by omega)]
    exact hn c (by omega)

theorem find?_step_invalidate (hkey : s.world.key root = key) :
    (s.step (.invalidate root)).world.engine.find? key = none := by
  simp only [step, World.invalidate, hkey]
  exact Engine.find?_erase_self ..

theorem atHand_invalidate_iff (hkey : s.world.key root = key) :
    (s.step (.invalidate root)).AtHand key idx ↔ ∃ c, s.clients c = .holding key idx := by
  constructor
  · rintro (h | h)
    · cases (find?_step_invalidate hkey).symm.trans h
    · exact h
  · exact .inr

/-- A client that holds an index when its root is dropped brings it back: the next question receives it,
while no file has changed. -/
theorem holding_received {c d : Nat} (hkey : s.world.key root = key)
    (hc : s.clients c = .holding key idx) (hd : s.clients d = .waiting) :
    ((s.step (.invalidate root)).run [.keep c, .lookUp d root]).clients d =
        .answered key (.ok idx) ∧
      ∀ earlier, earlier <+: [.keep c, .lookUp d root] →
        ((s.step (.invalidate root)).run earlier).world.files = s.world.files := by
  have hcd : d ≠ c := by
    rintro rfl
    cases hc.symm.trans hd
  have hkeep := step_keep_of_holding (s := s.step (.invalidate root)) hc
  have hwaiting : ((s.step (.invalidate root)).step (.keep c)).clients d = .waiting := by
    rw [hkeep, clients_setClient_of_ne _ hcd]
    exact hd
  have hkept : ((s.step (.invalidate root)).step (.keep c)).world.engine.find? key = some idx := by
    rw [hkeep]
    exact Engine.find?_insert_self (find?_step_invalidate hkey) idx
  have hfiles : ((s.step (.invalidate root)).step (.keep c)).world.files = s.world.files := by
    rw [hkeep]
    rfl
  have hstays : ((s.step (.invalidate root)).step (.keep c)).world.key root = key := by
    rw [hkeep]
    exact hkey
  have hlookUp := step_lookUp_of_kept hstays hwaiting hkept
  refine ⟨?_, fun earlier hearlier => ?_⟩
  · simp only [run, foldl_cons, foldl_nil, hlookUp]
    exact clients_setClient_self ..
  · simp only [prefix_cons_iff, prefix_nil] at hearlier
    rcases hearlier with rfl | ⟨rest, rfl, rfl | ⟨rest, rfl, rfl⟩⟩
    · rfl
    · exact hfiles
    · simp only [run, foldl_cons, foldl_nil, hlookUp]
      exact hfiles

/-- When a root is dropped after any actions of any clients: the questions that start later receive only
indexes that the files have given since, whatever happens, exactly when no client holds an index of the
root at that time which the files do not give any more. A client that does hold one is enough for the
drop to be lost, even if no file changes again. -/
theorem invalidate_keeps_iff (start : FileSystem) (settings : Option Settings) (before : List Action)
    (root : Path) :
    (∀ after c idx, ((System.new start settings).run before).clients c = .waiting →
        (((System.new start settings).run before).step (.invalidate root) |>.run after).clients c =
          .answered root.normalize (.ok idx) →
        (((System.new start settings).run before).step (.invalidate root)).Gives
          root.normalize after idx) ↔
      ∀ c idx, ((System.new start settings).run before).clients c = .holding root.normalize idx →
        buildIndex ((System.new start settings).run before).world.files settings root.normalize =
          .ok idx := by
  have hsettings := settings_run (System.new start settings) before
  obtain ⟨n, hwaiting⟩ := exists_waiting start settings before
  have hkey := key_of_links_none (links_run (System.new start settings) before) root
  generalize (System.new start settings).run before = s at *
  have hsettings : (s.step (.invalidate root)).world.engine.settings = settings := hsettings
  constructor
  · intro hfresh c idx hc
    obtain ⟨hreceived, hfiles⟩ := holding_received hkey hc (hwaiting n (Nat.le_refl n))
    obtain ⟨earlier, hearlier, hbuild⟩ :=
      hfresh _ n idx (hwaiting n (Nat.le_refl n)) hreceived
    rwa [hfiles earlier hearlier, hsettings] at hbuild
  · intro hheld after c idx hc hanswer
    rcases answered_run (s := s.step (.invalidate root)) hc after hanswer with hhand | hgives
    · obtain ⟨d, hd⟩ := (atHand_invalidate_iff hkey).1 hhand
      refine ⟨[], nil_prefix, ?_⟩
      rw [hsettings]
      exact hheld d idx hd
    · exact hgives

/-- A client builds the index of a project. The project is removed and its root is dropped. The client
keeps its index, and the next question receives it, though the files have not given it since. -/
theorem removedPackage_received : ∃ s idx,
    s = (System.new Index.cyclicPackage (some .default)).run
      [.lookUp 0 ⟨["app"]⟩, .build 0, .remove ⟨["app"]⟩] ∧
    s.clients 1 = .waiting ∧
    ((s.step (.invalidate ⟨["app"]⟩)).run [.keep 0, .lookUp 1 ⟨["app"]⟩]).clients 1 =
      .answered ⟨["app"]⟩ (.ok idx) ∧
    ¬ (s.step (.invalidate ⟨["app"]⟩)).Gives ⟨["app"]⟩ [.keep 0, .lookUp 1 ⟨["app"]⟩] idx := by
  have hbuild := Index.build_cyclicPackage
  generalize Index.cyclicPackageIndex = idx at hbuild
  have hbuilt : buildIndex Index.cyclicPackage (some .default) ⟨["app"]⟩ = .ok idx := by
    simp [buildIndex, Except.bind, hbuild, Except.mapError]
  -- the first client holds the index of a project that is gone
  have hrun : (System.new Index.cyclicPackage (some .default)).run
      [.lookUp 0 ⟨["app"]⟩, .build 0, .remove ⟨["app"]⟩] =
        ((System.new Index.cyclicPackage (some .default)).setClient 0
          (.holding ⟨["app"]⟩ idx)).step (.remove ⟨["app"]⟩) :=
    congrArg (·.step (.remove ⟨["app"]⟩))
      (step_build_step_lookUp (s := System.new Index.cyclicPackage (some .default)) (c := 0)
        (key_of_links_none rfl ⟨["app"]⟩) rfl rfl hbuilt)
  refine ⟨_, idx, hrun.symm, rfl, ?_⟩
  obtain ⟨hreceived, hfiles⟩ := holding_received (c := 0) (d := 1)
    (s := ((System.new Index.cyclicPackage (some .default)).setClient 0
      (.holding ⟨["app"]⟩ idx)).step (.remove ⟨["app"]⟩)) (key_of_links_none rfl ⟨["app"]⟩) rfl rfl
  refine ⟨hreceived, ?_⟩
  rintro ⟨earlier, hearlier, hgives⟩
  rw [hfiles earlier hearlier] at hgives
  have hgives : buildIndex (Index.cyclicPackage.remove ⟨["app"]⟩) (some .default) ⟨["app"]⟩ =
      .ok idx := hgives
  have hdir : (Index.cyclicPackage.remove ⟨["app"]⟩).isDir ⟨["app"]⟩ = false := by decide +kernel
  simp [buildIndex, Except.bind, Index.build_, hdir, Except.mapError] at hgives

end System

end ScriptAtlas
