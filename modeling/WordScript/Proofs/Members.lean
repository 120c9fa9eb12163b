import WordScript.Proofs.Involved
import WordScript.Proofs.Isolation
import WordScript.Proofs.Standing

/-!
# Members of modules

What the entry point of a module declares is bound in the global frame of the namespace that the
module is loaded into. A global frame is never closed and no binding is ever taken out of it, so the
name stands for the same from then on, from wherever it is mentioned with the namespace in front. It
can be mentioned, though, only when the namespace has no point in its name: what stands in front of
the first point is taken for the namespace.
-/

namespace WordScript

/-! ## Names with a namespace in front -/

theorem dropWhile_append_point {cs : List Char} (h : '.' ∉ cs) (ds : List Char) :
    (cs ++ '.' :: ds).dropWhile (· ≠ '.') = '.' :: ds ∧
      (cs ++ '.' :: ds).takeWhile (· ≠ '.') = cs := by
  have hcs : ∀ c ∈ cs, (decide (c ≠ '.')) = true := by
    intro c hc
    apply decide_eq_true
    rintro rfl
    exact h hc
  constructor
  · rw [List.dropWhile_append_of_pos hcs]
    simp
  · rw [List.takeWhile_append_of_pos hcs]
    simp

theorem qualified?_of_toList {name : String} {cs ds : List Char} (h : '.' ∉ cs)
    (hname : name.toList = cs ++ '.' :: ds) :
    qualified? name = some (String.ofList cs, String.ofList ds) := by
  obtain ⟨hdrop, htake⟩ := dropWhile_append_point h ds
  unfold qualified?
  rw [hname, hdrop, htake]

theorem toList_member (space name : String) :
    (space ++ "." ++ name).toList = space.toList ++ '.' :: name.toList := by
  simp

/-- A namespace without a point in its name is what stands in front. -/
theorem qualified?_member {space : String} (h : '.' ∉ space.toList) (name : String) :
    qualified? (space ++ "." ++ name) = some (space, name) := by
  rw [qualified?_of_toList h (toList_member space name), String.ofList_toList,
    String.ofList_toList]

/-- One with a point is not: another namespace is taken to stand in front. -/
theorem qualified?_member_of_point {space : String} (h : '.' ∈ space.toList) (name : String) :
    ∃ other member, qualified? (space ++ "." ++ name) = some (other, member) ∧ other ≠ space := by
  obtain ⟨cs, ds, hspace, hcs⟩ := List.eq_append_cons_of_mem h
  refine ⟨String.ofList cs, String.ofList (ds ++ '.' :: name.toList), ?_, ?_⟩
  · apply qualified?_of_toList hcs
    rw [toList_member, hspace, List.append_assoc, List.cons_append]
  · rintro rfl
    rw [String.toList_ofList] at h
    exact hcs h

/-! ## Global frames -/

namespace Scopes

variable {s s' : Scopes} {space name : String} {h : Handle}

theorem Contained.global? (hc : s.Contained s') (hb : s.global? space name = some h) :
    s'.global? space name = some h := by
  rw [global?_eq] at hb ⊢
  exact (hc.grows space 0).names hb

theorem global?_goTo (s : Scopes) (other space name : String) :
    (s.goTo other).global? space name = s.global? space name := by
  rw [global?_eq, global?_eq, frameAt_goTo]

theorem global?_enter (s : Scopes) (space name : String) :
    s.enter.global? space name = s.global? space name := by
  rw [global?_eq, global?_eq, frameAt_enter]

/-- The frame that is closed is never a global one. -/
theorem global?_leave? (hs : s.Placed) {frame : Frame} (hl : s.leave? = some (frame, s'))
    (space name : String) : s'.global? space name = s.global? space name := by
  obtain ⟨fs, hfs, hdepth⟩ := hs.current
  have hopen : s.place.depth ≠ 0 := by
    intro hzero
    simp [leave?, hzero] at hl
  have hlength : 0 + 1 ≠ (s.frames s.place.name).length := by
    rw [frames_of_find? hfs]
    omega
  rw [global?_eq, global?_eq, frameAt_leave? hl (.inr hlength)]

/-- The frame around the one that is closed is there. -/
theorem Placed.leave? (hs : s.Placed) {frame : Frame} (hl : s.leave? = some (frame, s')) :
    s'.Placed := by
  obtain ⟨fs, hfs, hdepth⟩ := hs.current
  unfold Scopes.leave? at hl
  split at hl
  · cases hl
  · next hopen =>
    simp only [Option.some.injEq, Prod.mk.injEq, frames_of_find? hfs] at hl
    obtain ⟨-, rfl⟩ := hl
    refine ⟨⟨fs.dropLast, ?_, ?_⟩, fun {other gs} hgs => ?_, ?_⟩
    · change (s.setFrames _ _).namespaces.find? s.place.name = _
      rw [find?_setFrames, if_pos rfl]
    · change s.place.depth - 1 < _
      rw [List.length_dropLast]
      omega
    · change (s.setFrames _ _).namespaces.find? other = some gs at hgs
      rw [find?_setFrames] at hgs
      by_cases hother : other = s.place.name
      · rw [if_pos hother] at hgs
        obtain rfl := Option.some.inj hgs
        apply List.ne_nil_of_length_pos
        rw [List.length_dropLast]
        omega
      · rw [if_neg hother] at hgs
        exact hs.nonempty hgs
    · exact Nat.lt_of_lt_of_le Nat.zero_lt_one (Nat.le_max_right _ _)

end Scopes

namespace Store

variable {s s' : Store} {space name : String} {h : Handle}

/-- The global frame of a namespace binds the name to the handle. -/
def HasMember (space name : String) (h : Handle) (s : Store) : Prop :=
  s.scopes.global? space name = some h

theorem HasMember.leave (hs : s.Ready) (hb : s.HasMember space name h)
    (arrange : List Handle → List Handle) : (s.leave arrange).2.HasMember space name h := by
  rcases leave_cases arrange s with ⟨-, heq⟩ | ⟨frame, scopes, hl, heq, -⟩
  · rw [heq]
    exact hb
  · rw [heq]
    exact (Scopes.global?_leave? hs.placed hl space name).trans hb

theorem Ready.leave (hs : s.Ready) {arrange : List Handle → List Handle}
    (harrange : ∀ hs, (arrange hs).Perm hs) : (s.leave arrange).2.Ready := by
  refine ⟨hs.sound.leave harrange, ?_⟩
  rcases leave_cases arrange s with ⟨-, heq⟩ | ⟨frame, scopes, hl, heq, -⟩
  · rw [heq]
    exact hs.placed
  · rw [heq]
    exact hs.placed.leave? hl

end Store

namespace Contract

/-- The store stays ready. -/
theorem kept_ready :
    Kept Store.Ready (fun s s' => s.scopes.Balanced s'.scopes)
      (fun s s' => s.scopes.Balanced s'.scopes) (fun _ _ => True) (fun _ => True) where
  refl := fun _ => .refl _
  trans := fun h h' => h.trans h'
  blocks := id
  literal := fun _ => trivial
  declared := fun _ _ => trivial
  read := fun text _ _ hs => ⟨⟨hs.sound.ofText text, hs.placed⟩, .refl _⟩
  resolve := by
    intro s s' name h hs _ hr
    have hbalanced := Store.balanced_resolve hs.placed hr
    exact ⟨⟨hs.sound.resolve hr, hs.placed.of_balanced hbalanced⟩, hbalanced⟩
  declare := by
    intro s s' i h hs _ hd
    have hbalanced := Store.balanced_declare hs.placed hd
    exact ⟨⟨hs.sound.declare hd, hs.placed.of_balanced hbalanced⟩, hbalanced⟩
  push := by
    intro s i hs _
    exact ⟨(Store.widens_pushTemporary hs i).ready, hs.placed.balanced_current _⟩
  setValue := fun hs hi _ => ⟨⟨hs.sound.put hi rfl rfl, hs.placed⟩, .refl _⟩
  enter := fun hs _ => ⟨hs.sound.enter, hs.placed.enter⟩
  leave := fun harrange hs _ h hs' => ⟨hs'.leave harrange, Store.balanced_leave hs.placed h _⟩
  goTo := fun space hs => ⟨hs.sound.goTo space, hs.placed.goTo space⟩
  restore := by
    intro s s' path space args hs _ h hs'
    have hbalanced := Scopes.balanced_restore h
    exact ⟨⟨hs'.sound.restore hs.sound.visible, hs.placed.of_balanced hbalanced⟩, hbalanced⟩

/-- No operation takes a binding out of a global frame. -/
theorem kept_hasMember (space name : String) (h : Handle) :
    Kept (fun s => s.Ready ∧ s.HasMember space name h) (fun s s' => s.scopes.Balanced s'.scopes)
      (fun s s' => s.scopes.Balanced s'.scopes) (fun _ _ => True) (fun _ => True) where
  refl := fun _ => .refl _
  trans := fun h h' => h.trans h'
  blocks := id
  literal := fun _ => trivial
  declared := fun _ _ => trivial
  read := by
    intro s op text hop hpermits hs
    obtain ⟨hready, hbalanced⟩ := kept_ready.read text hop hpermits hs.1
    exact ⟨⟨hready, hs.2⟩, hbalanced⟩
  resolve := by
    intro s s' name k hs hresolves hr
    obtain ⟨hready, hbalanced⟩ := kept_ready.resolve hs.1 hresolves hr
    exact ⟨⟨hready, (Store.contained_resolve hs.1.placed hr).global? hs.2⟩, hbalanced⟩
  declare := by
    intro s s' i k hs hi hd
    obtain ⟨hready, hbalanced⟩ := kept_ready.declare hs.1 hi hd
    exact ⟨⟨hready, (Store.contained_declare hs.1.placed hd).global? hs.2⟩, hbalanced⟩
  push := by
    intro s i hs hi
    obtain ⟨hready, hbalanced⟩ := kept_ready.push hs.1 hi
    exact ⟨⟨hready, (Store.contained_pushTemporary hs.1.placed i).global? hs.2⟩, hbalanced⟩
  setValue := by
    intro s k i hs hi value
    obtain ⟨hready, hbalanced⟩ := kept_ready.setValue hs.1 hi value
    exact ⟨⟨hready, hs.2⟩, hbalanced⟩
  enter := fun hs hopens =>
    ⟨kept_ready.enter hs.1 hopens, (Scopes.global?_enter _ _ _).trans hs.2⟩
  leave := by
    intro s s' arrange harrange hs hopens hsteps hs'
    obtain ⟨hready, hbalanced⟩ := kept_ready.leave harrange hs.1 hopens hsteps hs'.1
    exact ⟨⟨hready, hs'.2.leave hs'.1 arrange⟩, hbalanced⟩
  goTo := fun other hs => ⟨kept_ready.goTo other hs.1, (Scopes.global?_goTo _ _ _ _).trans hs.2⟩
  restore := by
    intro s s' path other args hs hpermits hsteps hs'
    obtain ⟨hready, hbalanced⟩ :=
      kept_ready.restore path other args hs.1 hpermits hsteps hs'.1
    exact ⟨⟨hready, hs'.2⟩, hbalanced⟩

end Contract

/-- However an operation ends, the store is ready again, and execution is where it was. -/
theorem Store.Ready.endsIn_perform {m : Machine} (hs : m.store.Ready) (host : Host) (steps : Nat)
    (op : Operation) : (perform host steps op m).EndsIn fun m' =>
      m'.store.Ready ∧ m.store.scopes.Balanced m'.store.scopes := by
  have hC := Contract.kept_ready.lawful host.asksOnly_stores_true
  exact (hC.perform_meets steps hs (Contract.admits_uniform op.stores_true)).endsIn
    fun _ hs' heffect => ⟨hs', Contract.kept_ready.effect heffect⟩

/-! ## What becomes of a store -/

/-- What becomes of a store: operations are carried out, by programs or by the host, and it is
looked at whenever one asks for another; blocks are left, and execution goes back to places that are
there. -/
inductive Store.GoesOn (host : Host) (s₀ : Store) : Store → Prop where
  | refl : GoesOn host s₀ s₀
  | asked {m m' : Machine} {op op' : Operation} {steps : Nat} (hs : GoesOn host s₀ m.store)
      (h : Inside host steps op m op' m') : GoesOn host s₀ m'.store
  | ended {m m' : Machine} {op : Operation} {steps : Nat} (hs : GoesOn host s₀ m.store)
      (hend : (perform host steps op m).machine? = some m') : GoesOn host s₀ m'.store
  | left {s : Store} {arrange : List Handle → List Handle} (hs : GoesOn host s₀ s)
      (harrange : ∀ hs, (arrange hs).Perm hs) : GoesOn host s₀ (s.leave arrange).2
  | returned {s : Store} {place : Place} (hs : GoesOn host s₀ s)
      (hplace : (s.scopes.restore place).Placed) :
      GoesOn host s₀ { s with scopes := s.scopes.restore place }

/-- A member of a namespace stays one. -/
theorem Store.GoesOn.hasMember {host : Host} {s₀ s : Store} {space name : String} {h : Handle}
    (hs₀ : s₀.Ready) (hb : s₀.HasMember space name h) (hlater : s₀.GoesOn host s) :
    s.Ready ∧ s.HasMember space name h := by
  have hC := (Contract.kept_hasMember space name h).lawful host.asksOnly_stores_true
  induction hlater with
  | refl => exact ⟨hs₀, hb⟩
  | @asked m m' op op' steps _ hasked ih =>
    exact (hC.inside ih (Contract.admits_uniform op.stores_true) hasked).1
  | @ended m m' op steps _ hend ih =>
    have hmeets := hC.perform_meets steps ih (Contract.admits_uniform op.stores_true)
    exact (hmeets.endsIn fun _ hm _ => hm).of_machine? hend
  | left _ harrange ih => exact ⟨ih.1.leave harrange, ih.2.leave ih.1 _⟩
  | returned _ hplace ih => exact ⟨⟨ih.1.sound.restore hplace.visible, hplace⟩, ih.2⟩

/-! ## Declarations of an entry point -/

/-- What is declared at the global frame of a namespace becomes a member of it. -/
theorem Store.hasMember_of_declare {s s' : Store} {i : Identifier} {h : Handle} {space : String}
    (hs : s.Ready) (hplace : s.scopes.place = .top space)
    (hd : s.declare i = .ok (some (h, s'))) : s'.HasMember space i.surface h := by
  have hfind : s'.scopes.currentFrame.names.find? i.surface = some h := by
    rcases declare_cases hd with ⟨-, heq⟩ | ⟨old, hfind, -, -, rfl⟩
    · obtain rfl : h = (s.define { i with scope := s.depth }).1 := congrArg Prod.fst heq
      obtain rfl : s' = (s.define { i with scope := s.depth }).2 := congrArg Prod.snd heq
      change (s.scopes.bind i.surface _).currentFrame.names.find? i.surface = _
      rw [Scopes.currentFrame_bind]
      exact Bindings.find?_insert_self _ _ _
    · exact hfind
  have hplace' : s'.scopes.place = .top space := (balanced_declare hs.placed hd).place.trans hplace
  rw [Scopes.currentFrame, hplace'] at hfind
  rw [HasMember, Scopes.global?_eq]
  exact hfind

namespace Evaluation

variable {host : Host} {steps : Nat} {m m₁ m₂ m' : Machine} {op : Operation}
  {name path space : String} {h : Handle} {args : List Expression}

/-- One of the ways for an entry point to declare a name, and the handle that it is given. -/
inductive Declares (host : Host) (steps : Nat) (name : String) (h : Handle) :
    Operation → Machine → Machine → Prop
  | identifier {i : Identifier} {m m' : Machine} (hname : i.surface = name)
      (hend : perform host steps (.declare i) m = .value h m') :
      Declares host steps name h (.declare i) m m'
  | function {isInfix : Bool} {label : Native} {m m' : Machine}
      (hend : perform host steps (.registerFunction name isInfix label) m = .value h m') :
      Declares host steps name h (.registerFunction name isInfix label) m m'
  | constant {i : Identifier} {m m' : Machine}
      (hend : perform host steps (.registerConstant name i) m = .value h m') :
      Declares host steps name h (.registerConstant name i) m m'

theorem store_declare_of_value {i : Identifier} (hend : Machine.declare i m = .value h m') :
    m.store.declare i = .ok (some (h, m'.store)) := by
  simp only [Machine.declare, Action.tryStore] at hend
  cases hd : m.store.declare i with
  | error e => simp [hd] at hend
  | ok result =>
    cases result with
    | none => simp [hd] at hend
    | some result =>
      obtain ⟨k, s⟩ := result
      simp only [hd, Outcome.value.injEq] at hend
      obtain ⟨rfl, rfl⟩ := hend
      rfl

/-- Whichever way it is, an identifier of that name is declared. -/
theorem Declares.exists_declare (hd : Declares host steps name h op m m') :
    (∃ a, perform host steps op m = .value a m') ∧
      ∃ i : Identifier, i.surface = name ∧ m.store.declare i = .ok (some (h, m'.store)) := by
  cases steps with
  | zero => cases hd <;> contradiction
  | succ steps =>
    cases hd with
    | @identifier i _ _ hname hend =>
      exact ⟨⟨h, hend⟩, i, hname, store_declare_of_value hend⟩
    | function hend => exact ⟨⟨h, hend⟩, _, rfl, store_declare_of_value hend⟩
    | constant hend => exact ⟨⟨h, hend⟩, _, rfl, store_declare_of_value hend⟩

/-- A member stays one while a script runs. -/
theorem hasMember_of_script {α : Type} {script : Script α} {a : α} (hs : m.store.Ready)
    (hb : m.store.HasMember space name h)
    (hrun : script.run (perform host steps) m = .value a m') :
    m'.store.Ready ∧ m'.store.HasMember space name h := by
  have hK := Contract.kept_hasMember space name h
  have hC := hK.lawful host.asksOnly_stores_true
  have hpost : ∀ (s : Store) (result : Except RuntimeError α), s.Ready ∧ s.HasMember space name h →
      m.store.scopes.Balanced s.scopes → True := fun _ _ _ _ => trivial
  have hobeys := hK.obeys (script.asksOnly_of_forall Operation.stores_true) ⟨hs, hb⟩ (.refl _) hpost
  obtain ⟨-, hends⟩ := Contract.Upheld.run_script (hC.perform steps) ⟨hs, hb⟩ hobeys
  rw [hrun] at hends
  exact hends.1

/-- What a script has declared at the global frame of a namespace is a member of it at the end,
whatever the script goes on to do. -/
theorem hasMember_of_reaches {α : Type} {script : Script α} {a : α} (hs : m.store.Ready)
    (hplace : m.store.scopes.place = .top space)
    (hreach : script.Reaches (perform host steps) m op m₁)
    (hdeclares : Declares host steps name h op m₁ m₂)
    (hrun : script.run (perform host steps) m = .value a m') :
    m'.store.Ready ∧ m'.store.HasMember space name h := by
  induction hreach with
  | @here op next m =>
    -- the declaration, and then the rest of the script
    obtain ⟨⟨answer, hend⟩, i, rfl, hd⟩ := hdeclares.exists_declare
    have hends := hs.endsIn_perform host steps op
    rw [hend] at hends
    rw [Script.run, Action.bind_apply, Action.attempt, hend] at hrun
    exact hasMember_of_script hends.1 (Store.hasMember_of_declare hs hplace hd) hrun
  | @value op _ next m m₁ _ answer hop _ ih =>
    have hends := hs.endsIn_perform host steps op
    rw [hop] at hends
    rw [Script.run, Action.bind_apply, Action.attempt, hop] at hrun
    exact ih hends.1 (hends.2.place.trans hplace) hdeclares hrun
  | @failure op _ next m m₁ _ e hop _ ih =>
    have hends := hs.endsIn_perform host steps op
    rw [hop] at hends
    rw [Script.run, Action.bind_apply, Action.attempt, hop] at hrun
    exact ih hends.1 (hends.2.place.trans hplace) hdeclares hrun

/-! ## Including a module -/

/-- The words that the operands of a request for modules come to. -/
def requestWords (self : Performer) (operands : List Expression) : Action (List String) := do
  let handles ← evaluateEach self operands
  Action.concatMap (fun h => do return [requestWord (← Machine.identifier h)]) handles

/-- A module is included into a namespace, and its entry point starts with a machine: when the host
loads it, or when `include` is called with a path and the word `as` and a namespace, or with a path
only, which is the name of the namespace then. -/
inductive Includes (host : Host) (steps : Nat) (path space : String) :
    List Expression → Machine → Machine → Machine → Prop
  | loaded {args : List Expression} {m m' : Machine}
      (hend : perform host (steps + 1) (.loadModule path space args) m = .value () m') :
      Includes host steps path space args m m m'
  | called {c : Handle} {f : Identifier} {operands : List Expression} {isInfix : Bool}
      {words : List String} {results : List Handle} {m m₁ m' : Machine}
      (hf : m.store.arena.get? c = some f)
      (hcallable : f.callable? = some (.builtin .loadModule))
      (hwords : requestWords (perform host (steps + 1)) operands m = .value words m₁)
      (hrequest : words = [path, "as", space] ∨ words = [path] ∧ space = path)
      (hend : perform host (steps + 2) (.call (.leaf c :: operands) isInfix) m =
        .value results m') :
      Includes host steps path space (.leaf c :: operands) m m₁ m'

theorem requests_of_request {words : List String}
    (h : words = [path, "as", space] ∨ words = [path] ∧ space = path) :
    requests words = [(path, space)] := by
  rcases h with rfl | ⟨rfl, rfl⟩ <;> simp [requests]

/-- Loads the modules that words request. -/
def loadRequested (self : Performer) (args : List Expression) (words : List String) :
    Action (List Handle) := do
  Action.forEach (fun request => self (.loadModule request.1 request.2 args)) (requests words)
  return []

/-- Calling `include` loads modules once the words are known. -/
theorem call_include {c : Handle} {f : Identifier} {operands : List Expression} (isInfix : Bool)
    (hf : m.store.arena.get? c = some f) (hcallable : f.callable? = some (.builtin .loadModule))
    (self : Performer) :
    call host self (.leaf c :: operands) isInfix m =
      (requestWords self operands >>= loadRequested self (.leaf c :: operands)) m := by
  change (Machine.identifier c >>= _) m = _
  rw [Action.bind_apply, identifier_of_get? hf]
  simp only [hcallable, callBuiltin, loadModules, requestWords, bind_assoc, List.tail_cons]
  rfl

theorem sequential_requestWords (operands : List Expression) :
    Sequential fun self => requestWords self operands :=
  (sequential_evaluateEach operands).bind fun _ => sequential_const _

/-- However a module is included, it is loaded in the end. -/
theorem Includes.loads (hs : m.store.Ready) (h : Includes host steps path space args m m₁ m') :
    m₁.store.Ready ∧ perform host (steps + 1) (.loadModule path space args) m₁ = .value () m' := by
  cases h with
  | loaded hend => exact ⟨hs, hend⟩
  | @called c f operands isInfix words results _ _ _ hf hcallable hwords hrequest hend =>
    have hcall : ∀ self, call host self (.leaf c :: operands) isInfix m = _ :=
      call_include isInfix hf hcallable
    have hrequests := requests_of_request hrequest
    constructor
    · -- the module is loaded inside of the call
      have hends : step host (perform host (steps + 1)) (steps + 1)
          (.call (.leaf c :: operands) isInfix) m ≠ .cutOff := by
        intro hcut
        cases hend.symm.trans hcut
      have hload : Involves (fun op m => op = .loadModule path space (.leaf c :: operands) ∧ m = m₁)
          (perform host (steps + 1)) (fun self => requestWords self operands >>= fun words =>
            loadRequested self (.leaf c :: operands) words) m := by
        apply Involves.bind_value (sequential_requestWords operands) hwords
        simp only [loadRequested, hrequests]
        exact (involves_ask ⟨rfl, rfl⟩).bind.bind
      obtain ⟨op, m₂, hop, hcut⟩ := hload
      have hinvolves : Involves
          (fun op m => op = .loadModule path space (.leaf c :: operands) ∧ m = m₁)
          (perform host (steps + 1)) (fun self => step host self (steps + 1)
            (.call (.leaf c :: operands) isInfix)) m :=
        ⟨op, m₂, hop, (hcall _).trans hcut⟩
      obtain ⟨_, _, ⟨rfl, rfl⟩, hinside, -⟩ := hinvolves.inside hends
      have hready := Contract.kept_ready.lawful host.asksOnly_stores_true
      exact (hready.inside hs (Contract.admits_uniform (Operation.stores_true _)) hinside).1
    · change call host (perform host (steps + 1)) (.leaf c :: operands) isInfix m = _ at hend
      rw [hcall, Action.bind_apply, hwords] at hend
      simp only [loadRequested, hrequests] at hend
      obtain ⟨_, m₂, hrun, hlast⟩ := Action.exists_of_bind_value hend
      obtain ⟨_, m₃, hload, hnil⟩ := Action.exists_of_bind_value hrun
      obtain ⟨-, rfl⟩ := Outcome.value.inj hlast
      obtain ⟨-, rfl⟩ := Outcome.value.inj hnil
      exact hload

/-- What the entry point has declared is a member of the namespace afterwards. -/
theorem Includes.hasMember (hs : m.store.Ready) (h : Includes host steps path space args m m₁ m')
    {entry : List Expression → Script Unit} (hopen : host.openModule path = .ok entry)
    {m₃ : Machine} (hreach : (entry args).Reaches (perform host steps)
      { m₁ with store := { m₁.store with scopes := m₁.store.scopes.goTo space } } op m₂)
    {k : Handle} (hdeclares : Declares host steps name k op m₂ m₃) :
    m'.store.Ready ∧ m'.store.HasMember space name k := by
  obtain ⟨hs₁, hload⟩ := h.loads hs
  have hends := hs₁.endsIn_perform host (steps + 1) (.loadModule path space args)
  rw [hload] at hends
  change loadModule host (perform host steps) path space args m₁ = _ at hload
  simp only [loadModule, hopen, inNamespace] at hload
  cases hrun : (entry args).run (perform host steps)
      { m₁ with store := { m₁.store with scopes := m₁.store.scopes.goTo space } } with
  | value a m₄ =>
    rw [hrun] at hload
    obtain ⟨-, rfl⟩ := Outcome.value.inj hload
    exact ⟨hends.1, (hasMember_of_reaches ⟨hs₁.sound.goTo space, hs₁.placed.goTo space⟩ rfl hreach
      hdeclares hrun).2⟩
  | failure e m₄ =>
    rw [hrun] at hload
    cases hload
  | cutOff =>
    rw [hrun] at hload
    cases hload

end Evaluation

/-! ## Mentioning a member -/

namespace Store

variable {s : Store} {space name : String} {h : Handle}

/-- A member of a namespace without a point in its name is what the name stands for. -/
theorem HasMember.resolve (hb : s.HasMember space name h) (hspace : '.' ∉ space.toList) :
    s.resolve (space ++ "." ++ name) = .ok (h, s) := by
  apply resolve_of_bound?
  rw [Scopes.bound?_member (qualified?_member hspace name)]
  exact hb

/-- Otherwise the name stands for something else, or for nothing. -/
theorem HasMember.resolve_ne (hs : s.Ready) (hb : s.HasMember space name h)
    (hspace : '.' ∈ space.toList) (s' : Store) :
    s.resolve (space ++ "." ++ name) ≠ .ok (h, s') := by
  intro hr
  obtain ⟨other, member, hq, hne⟩ := qualified?_member_of_point hspace name
  have hthere := Bindings.mem_of_find? ((Scopes.global?_eq _ _ _).symm.trans hb)
  rcases resolve_bound?_cases hr with
    ⟨hbound, -⟩ | ⟨-, ⟨other', member', -, heq⟩ | ⟨hplain, -⟩⟩
  · rw [Scopes.bound?_member hq, Scopes.global?_eq] at hbound
    have hhere := Bindings.mem_of_find? hbound
    exact Scopes.not_mem_frameAt_of_ne hs.sound.nodup hne
      (Frame.mem_handles.mpr (.inl ⟨_, hhere⟩)) (Frame.mem_handles.mpr (.inl ⟨_, hthere⟩))
  · -- a new identifier has a new handle
    have hu := hs.sound.inUse h (Scopes.mem_held_of_binds (Scopes.binds_of_frameAt hthere))
    obtain rfl : h = (s.arena.push (.name member' 0)).1 := congrArg Prod.fst heq
    exact Arena.not_inUse_push hs.sound.tidy _ hu
  · rw [hplain] at hq
    cases hq

end Store

/-- In any state that is reached, when a module has been included into a namespace, whatever its
entry point has declared there itself is reachable from all namespaces and depths and at all later
times under its name with the namespace in front, if the name of the namespace has no point in it.
If it has one, the declaration is never what that stands for. -/
theorem member_found_iff {host : Host} {m m₁ m₂ m₃ m' : Machine}
    (hm : Reached host (fun _ => True) m) {steps : Nat} {path space : String}
    {args : List Expression} (hincludes : Evaluation.Includes host steps path space args m m₁ m')
    {entry : List Expression → Script Unit} (hopen : host.openModule path = .ok entry)
    {op : Operation} (hreach : (entry args).Reaches (perform host steps)
      { m₁ with store := { m₁.store with scopes := m₁.store.scopes.goTo space } } op m₂)
    {name : String} {h : Handle} (hdeclares : Evaluation.Declares host steps name h op m₂ m₃)
    {s : Store} (hlater : m'.store.GoesOn host s) :
    ('.' ∉ space.toList → s.resolve (space ++ "." ++ name) = .ok (h, s)) ∧
      ('.' ∈ space.toList → ∀ s', s.resolve (space ++ "." ++ name) ≠ .ok (h, s')) := by
  obtain ⟨hs', hb'⟩ := hincludes.hasMember hm.ready hopen hreach hdeclares
  obtain ⟨hs, hb⟩ := hlater.hasMember hs' hb'
  exact ⟨hb.resolve, hb.resolve_ne hs⟩

/-- A module that registers a constant `y` is included into the namespace `lib`. -/
theorem member_found_constant :
    let host := Extension.Registry.host .constantModule
    let args : List Expression := [.leaf ⟨37, 0⟩, .leaf ⟨39, 0⟩, .leaf ⟨40, 0⟩, .leaf ⟨41, 0⟩]
    ∃ m m', Reached host (fun _ => True) m ∧
      perform host 3 (.call args false) m = .value ([] : List Handle) m' ∧
      ∀ s, m'.store.GoesOn host s → s.resolve "lib.y" = .ok (⟨45, 0⟩, s) := by
  intro host args
  have hrun : (perform host 1 (.readText "include m as lib\n") (.initial {})).test (fun _ m =>
      decide ((m.store.arena.get? ⟨37, 0⟩).bind Identifier.callable? =
          some (.builtin .loadModule) ∧
        (perform host 3 (.call args false) m).answer? = some ([] : List Handle)) &&
      (Evaluation.requestWords (perform host 2) args.tail m).test fun words m₁ =>
        decide (words = ["m", "as", "lib"] ∧
          (perform host 1 (.registerConstant "y" (.int 5))
            { m₁ with store := { m₁.store with scopes := m₁.store.scopes.goTo "lib" } }).answer? =
              some (⟨45, 0⟩ : Handle))) = true := by
    decide +kernel
  obtain ⟨_, m, hread, hrun⟩ := Outcome.exists_of_test hrun
  obtain ⟨hcall, hrun⟩ := Bool.and_eq_true_iff.mp hrun
  obtain ⟨hcallable, hanswer⟩ := of_decide_eq_true hcall
  obtain ⟨m', hend⟩ := Outcome.exists_of_answer? hanswer
  obtain ⟨words, m₁, hwords, hrun⟩ := Outcome.exists_of_test hrun
  obtain ⟨rfl, hconstant⟩ := of_decide_eq_true hrun
  obtain ⟨m₃, hdeclared⟩ := Outcome.exists_of_answer? hconstant
  obtain ⟨f, hf, hload⟩ := Option.bind_eq_some_iff.mp hcallable
  have hreached : Reached host (fun _ => True) m :=
    .value (.initial {}) trivial .here hread
  have hincludes : Evaluation.Includes host 1 "m" "lib" args m m₁ m' :=
    .called hf hload hwords (.inl rfl) hend
  refine ⟨m, m', hreached, hend, fun s hlater => ?_⟩
  have hfound := member_found_iff hreached hincludes rfl .here (.constant hdeclared) hlater
  exact hfound.1 (by decide)

/-- The module `lib.m` is included into the namespace of that name, and its constant `c` is declared
there; but `lib.m.c` is taken for a member of a namespace `lib`, which there is none of. -/
theorem member_of_dotted_namespace_not_found :
    let host := Extension.Registry.host [("lib.m", [.constant "c" (.int 5)])]
    ∃ m, perform host 14 (.runTextTopLevel "include \"lib.m\"\n") (.initial {}) =
        .value (.ok ()) m ∧
      (m.store.scopes.global? "lib.m" "c").bind m.store.arena.get? =
        some { Identifier.int 5 with surface := "c" } ∧
      m.store.resolve "lib.m.c" = .error (.unknownNamespace "lib") := by
  intro host
  have hrun : (perform host 14 (.runTextTopLevel "include \"lib.m\"\n") (.initial {})).test
      (fun result m => result.toOption.any fun _ =>
        decide ((m.store.scopes.global? "lib.m" "c").bind m.store.arena.get? =
          some { Identifier.int 5 with surface := "c" } ∧
          m.store.resolve "lib.m.c" = .error (.unknownNamespace "lib"))) = true := by
    decide +kernel
  obtain ⟨result, m, hend, hrun⟩ := Outcome.exists_of_test hrun
  obtain ⟨_, rfl, hrun⟩ := Except.exists_of_any_toOption hrun
  obtain ⟨hdeclared, hresolve⟩ := of_decide_eq_true hrun
  exact ⟨m, hend, hdeclared, hresolve⟩

end WordScript
