import Mathlib.Data.List.Chain
import WordScript.Proofs.Declaring
import WordScript.Proofs.Members

/-!
# Requests for modules

A request names a module by its path, and may say after the word `as` which namespace it is to be
loaded into. Requests are written one behind the other with nothing between them. Still they can be
told apart when no path `as` follows a request without a namespace: the words are decoded into the
requests that they write, and the modules are loaded one by one until the first of them fails.
-/

namespace WordScript

/-- A module that is asked for, and the namespace that it is to be loaded into, if one is given. -/
structure ModuleRequest where
  path : String
  given? : Option String

namespace ModuleRequest

/-- The namespace that the module is loaded into: the one of its path, when none is given. -/
def space (r : ModuleRequest) : String := r.given?.getD r.path

/-- The words that requests are written with; an `as` at the end that nothing follows gives no
namespace. -/
inductive Writes : List ModuleRequest → List String → Prop where
  | nil : Writes [] []
  | plain {rs : List ModuleRequest} {words : List String} (path : String) (h : Writes rs words) :
      Writes (⟨path, none⟩ :: rs) (path :: words)
  | named {rs : List ModuleRequest} {words : List String} (path space : String)
      (h : Writes rs words) :
      Writes (⟨path, some space⟩ :: rs) (path :: "as" :: space :: words)
  | trailing (path : String) : Writes [⟨path, none⟩] [path, "as"]

/-- No path `as` follows a request without a namespace. -/
def Unambiguous (rs : List ModuleRequest) : Prop :=
  rs.IsChain fun r r' => r.given? = none → r'.path ≠ "as"

variable {rs : List ModuleRequest} {words : List String}

/-- The first word is the path of the first request. -/
theorem Writes.head? (h : Writes rs words) : words.head? = rs.head?.map path := by
  cases h <;> rfl

end ModuleRequest

namespace Evaluation

open WordScript.Action WordScript.Machine

/-! ## Decoding -/

theorem requests_named (path space : String) (words : List String) :
    requests (path :: "as" :: space :: words) = (path, space) :: requests words := by
  rw [requests, if_pos rfl]

theorem requests_plain (path : String) {words : List String} (h : words.head? ≠ some "as") :
    requests (path :: words) = (path, path) :: requests words := by
  cases words with
  | nil => simp [requests]
  | cons word words =>
    have hword : word ≠ "as" := by simpa using h
    cases words with
    | nil => simp [requests, hword]
    | cons space words => rw [requests, if_neg hword]

/-- Words are decoded into the requests that they write. -/
theorem requests_of_writes {rs : List ModuleRequest} {words : List String}
    (h : ModuleRequest.Writes rs words) (hrs : ModuleRequest.Unambiguous rs) :
    requests words = rs.map fun r => (r.path, r.space) := by
  induction h with
  | nil => simp [requests]
  | @plain rs words path hwords ih =>
    obtain ⟨hnext, hrest⟩ := List.isChain_cons.mp hrs
    have hhead : words.head? ≠ some "as" := by
      rw [hwords.head?]
      intro has
      obtain ⟨r, hr, hpath⟩ := Option.map_eq_some_iff.mp has
      exact hnext r hr rfl hpath
    rw [requests_plain path hhead, ih hrest]
    rfl
  | @named rs words path space hwords ih =>
    rw [requests_named, ih (List.isChain_cons.mp hrs).2]
    rfl
  | trailing path => simp [requests, ModuleRequest.space]

/-! ## Loading -/

/-- How it ends to load modules that are requested: each is loaded where the one before it has
ended, and the first that fails ends it. Whatever has been done until then stays. -/
inductive LoadsInOrder (host : Host) (steps : Nat) (args : List Expression) :
    List ModuleRequest → Machine → Outcome (List Handle) → Prop where
  | done (m : Machine) : LoadsInOrder host steps args [] m (.value [] m)
  | loaded {r : ModuleRequest} {rs : List ModuleRequest} {m m' : Machine}
      {o : Outcome (List Handle)}
      (h : perform host steps (.loadModule r.path r.space args) m = .value () m')
      (hrest : LoadsInOrder host steps args rs m' o) : LoadsInOrder host steps args (r :: rs) m o
  | failed {r : ModuleRequest} {rs : List ModuleRequest} {m m' : Machine} {e : RuntimeError}
      (h : perform host steps (.loadModule r.path r.space args) m = .failure e m') :
      LoadsInOrder host steps args (r :: rs) m (.failure e m')
  | cutOff {r : ModuleRequest} {rs : List ModuleRequest} {m : Machine}
      (h : perform host steps (.loadModule r.path r.space args) m = .cutOff) :
      LoadsInOrder host steps args (r :: rs) m .cutOff

variable {host : Host} {steps : Nat} {m : Machine} {c k : Handle} {hs : List Handle}
  {words : List String}

/-- Loads modules in order. -/
def loadEach (self : Performer) (args : List Expression) (rs : List ModuleRequest) :
    Action (List Handle) := do
  forEach (fun request => self (.loadModule request.1 request.2 args))
    (rs.map fun r => (r.path, r.space))
  return []

theorem loadEach_cons (self : Performer) (args : List Expression) (r : ModuleRequest)
    (rs : List ModuleRequest) :
    loadEach self args (r :: rs) =
      (self (.loadModule r.path r.space args) >>= fun _ => loadEach self args rs) := by
  rw [loadEach, List.map_cons, forEach, bind_assoc]
  rfl

theorem loadsInOrder_loadEach (args : List Expression) (rs : List ModuleRequest) (m : Machine) :
    LoadsInOrder host steps args rs m (loadEach (perform host steps) args rs m) := by
  induction rs generalizing m with
  | nil => exact .done m
  | cons r rs ih =>
    rw [loadEach_cons, Action.bind_apply]
    cases hload : perform host steps (.loadModule r.path r.space args) m with
    | value a m' => exact .loaded hload (ih m')
    | failure e m' => exact .failed hload
    | cutOff => exact .cutOff hload

/-- There is no other way for it to end. -/
theorem LoadsInOrder.eq {args : List Expression} {rs : List ModuleRequest}
    {o : Outcome (List Handle)} (h : LoadsInOrder host steps args rs m o) :
    loadEach (perform host steps) args rs m = o := by
  induction h with
  | done m => rfl
  | loaded h _ ih =>
    rw [loadEach_cons, Action.bind_apply, h]
    exact ih
  | failed h => rw [loadEach_cons, Action.bind_apply, h]
  | cutOff h => rw [loadEach_cons, Action.bind_apply, h]

/-- Calling what a leaf stands for as `include`. -/
theorem perform_call_include (hc : m.store.StandsForBuiltin c k .loadModule)
    (operands : List Expression) :
    perform host (steps + 1) (.call (.leaf k :: operands) false) m =
      (requestWords (perform host steps) operands >>=
        loadRequested (perform host steps) (.leaf k :: operands)) m := by
  obtain ⟨-, f, hf, -, hcallable⟩ := hc
  exact call_include false hf hcallable (perform host steps)

/-! ## Words that are given as texts -/

end Evaluation

namespace Store

variable {s : Store} {h : Handle} {text : String}

/-- The handle is of a text constant. -/
def HoldsText (s : Store) (h : Handle) (text : String) : Prop :=
  ∃ i, s.arena.get? h = some i ∧ i.role = .constant ∧ i.type = "string" ∧ i.value = .string text

theorem HoldsText.standsFor (hh : s.HoldsText h text) : s.StandsFor h h := by
  obtain ⟨i, hi, hrole, -, -⟩ := hh
  exact standsFor_self hi (by simp [Identifier.isUndefined, hrole])

/-- A text contributes itself to a request. -/
theorem HoldsText.requestWord (hh : s.HoldsText h text) :
    ∃ i, s.arena.get? h = some i ∧ Evaluation.requestWord i = text := by
  obtain ⟨i, hi, hrole, htype, hvalue⟩ := hh
  refine ⟨i, hi, ?_⟩
  have hdefined : ¬ i.isUndefined = true := by simp [Identifier.isUndefined, hrole]
  rw [Evaluation.requestWord, if_neg hdefined, Identifier.toText, Identifier.castValue,
    if_pos htype, hvalue]
  rfl

theorem holdsText_of_map {hs : List Handle} {words : List String}
    (h : hs.map s.arena.get? = words.map fun word => some (.string word)) :
    List.Forall₂ s.HoldsText hs words := by
  rw [← List.forall₂_eq_eq_eq, List.forall₂_map_left_iff, List.forall₂_map_right_iff] at h
  exact h.imp fun _ _ hget => ⟨_, hget, rfl, rfl, rfl⟩

end Store

theorem Action.eq_failure_of_attempt {α : Type} {x : Action α} {e : RuntimeError} {m m' : Machine}
    (h : x.attempt m = .value (.error e) m') : x m = .failure e m' := by
  rw [attempt] at h
  cases hx : x m with
  | value a m₁ => simp [hx] at h
  | failure e' m₁ =>
    rw [hx] at h
    obtain ⟨heq, rfl⟩ := Outcome.value.inj h
    rw [Except.error.inj heq]
  | cutOff => simp [hx] at h

namespace Evaluation

open WordScript.Action WordScript.Machine

variable {host : Host} {steps : Nat} {self : Performer} {m : Machine} {c k : Handle}
  {hs : List Handle} {words : List String}

/-- Texts wait as they are. -/
theorem scan_texts (self : Performer) (hwords : List.Forall₂ m.store.HoldsText hs words)
    (before waiting : List Expression) :
    scan self ((hs.map .leaf).reverse ++ before) waiting m =
      scan self before (hs.map .leaf ++ waiting) m := by
  induction hwords generalizing before with
  | nil => rfl
  | @cons h word hs words hword _ ih =>
    obtain ⟨i, hi, hrole, -⟩ := id hword
    have hvalue : i.isFunction = false := by simp [Identifier.isFunction, hrole]
    rw [List.map_cons, List.reverse_cons, List.append_assoc, List.singleton_append, ih,
      scan_value (resolveLeaf_of_standsFor hword.standsFor) hi hvalue]
    rfl

/-- Each text contributes itself. -/
theorem requestWords_of_texts (host : Host) (steps : Nat)
    (hwords : List.Forall₂ m.store.HoldsText hs words) :
    requestWords (perform host (steps + 1)) (hs.map .leaf) m = .value words m := by
  have hstands : ∀ h ∈ hs, m.store.StandsFor h h := by
    intro h hh
    obtain ⟨word, -, hword⟩ := exists_of_forall₂ hwords hh
    exact hword.standsFor
  rw [requestWords, Action.bind_apply, evaluateEach_of_standsFor host steps hstands]
  clear hstands
  simp only
  induction hwords with
  | nil => rfl
  | @cons h word hs words hword _ ih =>
    obtain ⟨i, hi, rfl⟩ := hword.requestWord
    simp only [concatMap, Action.bind_apply, identifier_of_get? hi]
    change (concatMap _ hs >>= fun rest => pure ([requestWord i] ++ rest)) m = _
    rw [Action.bind_apply, ih]
    rfl

/-- A group of `include` and words loads the modules that the words request, in order. -/
theorem perform_include_texts (host : Host) (steps : Nat)
    (hc : m.store.StandsForBuiltin c k .loadModule)
    (hwords : List.Forall₂ m.store.HoldsText hs words) :
    perform host (steps + 4) (.evaluate (.group (.leaf c :: hs.map .leaf))) m =
      loadRequested (perform host (steps + 1)) (.leaf k :: hs.map .leaf) words
        (m.noted (.leaf c :: hs.map .leaf)) := by
  have hnoted : (m.noted (.leaf c :: hs.map .leaf)).store.StandsForBuiltin c k .loadModule := hc
  have hscan := scan_texts (m := m.noted (.leaf c :: hs.map .leaf)) (perform host (steps + 2))
    hwords [.leaf c] []
  have hreads := requestWords_of_texts (m := m.noted (.leaf c :: hs.map .leaf)) host steps hwords
  rw [List.append_nil] at hscan
  rw [perform_in_front host (steps + 2) hnoted hscan, perform_call_include hnoted,
    Action.bind_apply, hreads]

/-- When `include` is called with texts that write requests down, it loads exactly the modules that
are requested, one after the other, each into the namespace that is given for it or else into that
of its path, up to the first that fails; and it gives nothing. An `as` at the end that nothing
follows is as good as none. -/
theorem requests_loaded_in_order {host : Host} {m : Machine} {c k : Handle}
    (hc : m.store.StandsForBuiltin c k .loadModule) {hs : List Handle} {words : List String}
    (hwords : List.Forall₂ m.store.HoldsText hs words) {rs : List ModuleRequest}
    (hwrites : ModuleRequest.Writes rs words) (hrs : ModuleRequest.Unambiguous rs) (steps : Nat)
    (o : Outcome (List Handle)) :
    perform host (steps + 4) (.evaluate (.group (.leaf c :: hs.map .leaf))) m = o ↔
      LoadsInOrder host (steps + 1) (.leaf k :: hs.map .leaf) rs
        (m.noted (.leaf c :: hs.map .leaf)) o := by
  have hend : perform host (steps + 4) (.evaluate (.group (.leaf c :: hs.map .leaf))) m =
      loadEach (perform host (steps + 1)) (.leaf k :: hs.map .leaf) rs
        (m.noted (.leaf c :: hs.map .leaf)) := by
    rw [perform_include_texts host steps hc hwords, loadRequested, requests_of_writes hwrites hrs]
    rfl
  rw [hend]
  constructor
  · rintro rfl
    exact loadsInOrder_loadEach _ rs _
  · exact LoadsInOrder.eq

/-- A module with the path `as` is loaded into the namespace `as`. The module `p` is asked for
without a namespace, but there is none; what the first one has declared is there afterwards. -/
theorem requests_loaded_in_order_as :
    let host := Extension.Registry.host [("as", [.constant "y" (.int 5)])]
    let hs : List Handle := [⟨39, 0⟩, ⟨40, 0⟩, ⟨41, 0⟩, ⟨42, 0⟩, ⟨43, 0⟩]
    let e := RuntimeError.moduleOpen "p" "no module registered under this path"
    ∃ m m', Reached host (fun _ => True) m ∧
      perform host 14 (.evaluate (.group (.leaf ⟨38, 0⟩ :: hs.map .leaf))) m = .failure e m' ∧
      LoadsInOrder host 11 (.leaf ⟨37, 0⟩ :: hs.map .leaf) [⟨"as", some "as"⟩, ⟨"p", none⟩]
        (m.noted (.leaf ⟨38, 0⟩ :: hs.map .leaf)) (.failure e m') ∧
      (m'.store.scopes.global? "as" "y").isSome := by
  intro host hs e
  have hrun : (perform host 1 (.readText "include 'as' 'as' 'as' 'p' 'as'\n") (.initial {})).test
      (fun _ m =>
        decide (m.store.arena.get? ⟨38, 0⟩ = some (.name "include" 0) ∧
          m.store.scopes.bound? "include" = some ⟨37, 0⟩ ∧
          m.store.arena.get? ⟨37, 0⟩ = some (inFront "include" .loadModule) ∧
          hs.map m.store.arena.get? =
            ["as", "as", "as", "p", "as"].map (fun word => some (.string word)) ∧
          ((perform host 14 (.evaluate (.group (.leaf ⟨38, 0⟩ :: hs.map .leaf)))).attempt
            m).answer? = some (.error e)) &&
        ((perform host 14 (.evaluate (.group (.leaf ⟨38, 0⟩ :: hs.map .leaf)))).attempt
          m).machine?.any fun m' => (m'.store.scopes.global? "as" "y").isSome) = true := by
    decide +kernel
  obtain ⟨_, m, hread, hrun⟩ := Outcome.exists_of_test hrun
  obtain ⟨hleaves, hrun⟩ := Bool.and_eq_true_iff.mp hrun
  obtain ⟨hname, hbound, hfunction, htexts, hend⟩ := of_decide_eq_true hleaves
  obtain ⟨m', hmachine', hmember⟩ := (Option.any_eq_true _ _).mp hrun
  have hreached : Reached host (fun _ => True) m :=
    .value (.initial {}) trivial .here hread
  have hfails := Action.eq_failure_of_attempt (Outcome.eq_value hend hmachine')
  have hc : m.store.StandsForBuiltin ⟨38, 0⟩ ⟨37, 0⟩ .loadModule :=
    ⟨⟨_, hname, Store.resolve_of_bound? hbound⟩, _, hfunction, rfl, rfl⟩
  have hwrites : ModuleRequest.Writes [⟨"as", some "as"⟩, ⟨"p", none⟩]
      ["as", "as", "as", "p", "as"] :=
    .named "as" "as" (.trailing "p")
  have hrs : ModuleRequest.Unambiguous [⟨"as", some "as"⟩, ⟨"p", none⟩] :=
    .cons_cons (by intro h; cases h) (.singleton _)
  exact ⟨m, m', hreached, hfails, (requests_loaded_in_order hc (Store.holdsText_of_map htexts)
    hwrites hrs 10 _).mp hfails, hmember⟩

end Evaluation

end WordScript
