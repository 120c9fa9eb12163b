import WordScript.Proofs.Requests
import WordScript.Proofs.Targets

/-!
# Bare words in requests

A word that is a mere name contributes its own spelling to a request for modules. It is resolved
twice until then: as a member of the group, and as an operand of `include`, which asks what the
first time has come to for its spelling. A name without a point comes back to itself. One with a
point is taken for a member of a namespace, and the spelling of the member is shorter.
-/

namespace WordScript

/-! ## Spellings -/

theorem exists_qualified? {name : String} (h : '.' ∈ name.toList) :
    ∃ space member, qualified? name = some (space, member) := by
  obtain ⟨cs, ds, hname, hcs⟩ := List.eq_append_cons_of_mem h
  exact ⟨_, _, qualified?_of_toList hcs hname⟩

theorem length_unqualified_le (name : String) :
    (unqualified name).toList.length ≤ name.toList.length := by
  cases hq : qualified? name with
  | none => rw [unqualified_plain hq]
  | some p =>
    obtain ⟨space, member⟩ := p
    rw [unqualified_member hq]
    exact (Nat.le_succ _).trans (suffix_of_qualified? hq).length_le

theorem length_unqualified_lt {name : String} (h : '.' ∈ name.toList) :
    (unqualified name).toList.length < name.toList.length := by
  obtain ⟨space, member, hq⟩ := exists_qualified? h
  rw [unqualified_member hq]
  exact (suffix_of_qualified? hq).length_le

/-- A name with a point in it does not come back when what stands in front is taken off twice. -/
theorem unqualified_unqualified_ne {name : String} (h : '.' ∈ name.toList) :
    unqualified (unqualified name) ≠ name := by
  intro heq
  have hlength := (length_unqualified_le (unqualified name)).trans_lt (length_unqualified_lt h)
  rw [heq] at hlength
  exact hlength.false

namespace Store

variable {s s' : Store} {name : String} {n : Handle} {i : Identifier}

/-- Resolving the name, if that is possible, comes to a name that nothing is declared under. -/
def OnlyName (s : Store) (name : String) : Prop :=
  ∀ n s', s.resolve name = .ok (n, s') → ∃ i, s'.arena.get? n = some i ∧ i.isUndefined = true

/-- What a name comes to that nothing is declared under has its spelling, without the namespace in
front. -/
theorem OnlyName.names (hs : s.Ready) (hname : s.OnlyName name)
    (hr : s.resolve name = .ok (n, s')) : s'.Names n (unqualified name) := by
  obtain ⟨i, hi, hundefined⟩ := hname n s' hr
  have hbound := bound?_of_resolve hs.placed hr
  exact ⟨i, hi, hundefined, surface_eq_unqualified (hs.sound.resolve hr) hbound hi⟩

theorem onlyName_of_all
    (h : (s.resolve name).toOption.all (fun result =>
      (result.2.arena.get? result.1).any Identifier.isUndefined) = true) : s.OnlyName name := by
  intro n s' hr
  rw [hr] at h
  exact (Option.any_eq_true _ _).mp h

end Store

namespace Evaluation

open WordScript.Action WordScript.Machine

variable {host : Host} {steps : Nat} {m m₁ m₂ : Machine} {c k h n n' : Handle}

/-! ## Including one word -/

theorem resolveLeaf_of_names {s : Store} {word : String} (hword : m.store.Names h word)
    (hr : m.store.resolve word = .ok (n, s)) :
    resolveLeaf h m = .value n { m with store := s } := by
  obtain ⟨i, hi, hundefined, rfl⟩ := hword
  exact resolveLeaf_of_resolve hi hundefined hr

theorem resolveLeaf_of_names_error {e : RuntimeError} {word : String}
    (hword : m.store.Names h word) (hr : m.store.resolve word = .error e) :
    resolveLeaf h m = .failure e m := by
  obtain ⟨i, hi, hundefined, rfl⟩ := hword
  rw [resolveLeaf, Action.bind_apply, identifier_of_get? hi]
  simp only [hundefined, if_true, Machine.resolve, Action.tryStore, hr]

/-- When the word cannot be resolved, the group fails. -/
theorem perform_include_failure (host : Host) (steps : Nat) {e : RuntimeError}
    (hfail : resolveLeaf h (m.noted [.leaf c, .leaf h]) = .failure e m₁) :
    perform host (steps + 4) (.evaluate (.group [.leaf c, .leaf h])) m = .failure e m₁ := by
  have hscan : scan (perform host (steps + 2)) [.leaf h, .leaf c] []
      (m.noted [.leaf c, .leaf h]) = .failure e m₁ := by
    rw [scan, Action.bind_apply, hfail]
  rw [perform_evaluate_group, Action.bind_apply, List.reverse_cons, List.reverse_singleton,
    List.singleton_append, hscan]

/-- When it is resolved to a name, it is up to that name what is loaded. -/
theorem perform_include_name (host : Host) (steps : Nat)
    (hc : m₁.store.StandsForBuiltin c k .loadModule)
    (hn : resolveLeaf h (m.noted [.leaf c, .leaf h]) = .value n m₁) {word : String}
    (hname : m₁.store.Names n word) :
    perform host (steps + 4) (.evaluate (.group [.leaf c, .leaf h])) m =
      (requestWords (perform host (steps + 1)) [.leaf n] >>=
        loadRequested (perform host (steps + 1)) [.leaf k, .leaf n]) m₁ := by
  obtain ⟨i, hi, hundefined, -⟩ := hname
  have hvalue : i.isFunction = false := by
    have hrole : i.role = .undefined := of_decide_eq_true hundefined
    simp [Identifier.isFunction, hrole]
  have hscan : scan (perform host (steps + 2)) ([.leaf h].reverse ++ [.leaf c]) []
      (m.noted (.leaf c :: [.leaf h])) = scan (perform host (steps + 2)) [.leaf c] [.leaf n] m₁ :=
    scan_value hn hi hvalue [.leaf c] []
  rw [perform_in_front host (steps + 2) hc hscan, perform_call_include hc]

/-- A name contributes the spelling of what it is resolved to. -/
theorem requestWords_of_name (host : Host) (steps : Nat)
    (hn : resolveLeaf n m₁ = .value n' m₂) {word : String} (hname : m₂.store.Names n' word) :
    requestWords (perform host (steps + 1)) [.leaf n] m₁ = .value [word] m₂ := by
  obtain ⟨i, hi, hundefined, rfl⟩ := hname
  rw [requestWords, evaluateEach_singleton, Action.bind_apply, perform_evaluate_leaf host steps hn]
  simp only [concatMap_singleton, Action.bind_apply, identifier_of_get? hi, requestWord,
    hundefined, if_true]
  rfl

theorem requestWords_failure (host : Host) (steps : Nat) {e : RuntimeError}
    (hfail : resolveLeaf n m₁ = .failure e m₂) :
    requestWords (perform host (steps + 1)) [.leaf n] m₁ = .failure e m₂ := by
  have hleaf : perform host (steps + 1) (.evaluate (.leaf n)) m₁ = .failure e m₂ := by
    change (resolveLeaf n >>= fun k => pure [k]) m₁ = _
    rw [Action.bind_apply, hfail]
  rw [requestWords, evaluateEach_singleton, Action.bind_apply, hleaf]

/-- One word is the path and the namespace. -/
theorem loadRequested_singleton (self : Performer) (args : List Expression) (word : String) :
    loadRequested self args [word] =
      (self (.loadModule word word args) >>= fun _ => pure []) := by
  simp [loadRequested, requests, forEach]

end Evaluation

/-- Whatever the host is, evaluating the group is loading the module of a path into the namespace of
that name, with these arguments and from this machine on. -/
def Machine.LoadsOnly (m : Machine) (group : List Expression) (path : String)
    (args : List Expression) (m₁ : Machine) : Prop :=
  ∀ (host : Host) (steps : Nat), perform host (steps + 4) (.evaluate (.group group)) m =
    (perform host (steps + 1) (.loadModule path path args) >>= fun _ => pure []) m₁

namespace Evaluation

variable {m m₁ m₂ : Machine} {c k h n n' : Handle} {word : String}

/-- A name that comes to a name which comes to a name. -/
theorem loadsOnly_of_names (hc : m₁.store.StandsForBuiltin c k .loadModule)
    (hn : resolveLeaf h (m.noted [.leaf c, .leaf h]) = .value n m₁) {word' : String}
    (hname : m₁.store.Names n word) (hn' : resolveLeaf n m₁ = .value n' m₂)
    (hname' : m₂.store.Names n' word') :
    m.LoadsOnly [.leaf c, .leaf h] word' [.leaf k, .leaf n] m₂ := by
  intro host steps
  rw [perform_include_name host steps hc hn hname, Action.bind_apply,
    requestWords_of_name host steps hn' hname']
  exact congrFun (loadRequested_singleton _ _ _) _

/-- A name without a point comes back to itself, since it is bound when it has been resolved. -/
theorem exists_loadsOnly (hready : m.store.Ready)
    (hc : m.store.StandsForBuiltin c k .loadModule) (hword : m.store.Names h word)
    (hname : m.store.OnlyName word) (hpoint : '.' ∉ word.toList) :
    ∃ n s, m.store.resolve word = .ok (n, s) ∧
      m.LoadsOnly [.leaf c, .leaf h] word [.leaf k, .leaf n]
        { m.noted [.leaf c, .leaf h] with store := s } := by
  have hplain := Store.qualified?_eq_none hpoint
  obtain ⟨n, s, hr⟩ := Store.exists_resolve_plain m.store hplain
  have hw := Store.widens_resolve hready hr
  have hnamed := hname.names hready hr
  rw [unqualified_plain hplain] at hnamed
  have hagain : s.resolve word = .ok (n, s) :=
    Store.resolve_of_bound? (Store.bound?_of_resolve hready.placed hr)
  exact ⟨n, s, hr, loadsOnly_of_names (hc.widen hready hw) (resolveLeaf_of_names hword hr) hnamed
    (resolveLeaf_of_names hnamed hagain) hnamed⟩

/-- Whatever the name is, it loses the namespace in front whenever it is resolved, or it cannot be
resolved. -/
theorem fails_or_loadsOnly (hready : m.store.Ready)
    (hc : m.store.StandsForBuiltin c k .loadModule) (hword : m.store.Names h word)
    (hname : m.store.OnlyName word)
    (honly : ∀ n s, m.store.resolve word = .ok (n, s) → s.OnlyName (unqualified word)) :
    (∃ space m₁, ∀ host steps,
      perform host (steps + 4) (.evaluate (.group [.leaf c, .leaf h])) m =
        .failure (.unknownNamespace space) m₁) ∨
    ∃ args m₁, m.LoadsOnly [.leaf c, .leaf h] (unqualified (unqualified word)) args m₁ := by
  cases hr : m.store.resolve word with
  | error e =>
    obtain ⟨space, rfl⟩ := Store.resolve_error hr
    exact .inl ⟨space, m.noted [.leaf c, .leaf h], fun host steps =>
      perform_include_failure host steps (resolveLeaf_of_names_error hword hr)⟩
  | ok result =>
    obtain ⟨n, s⟩ := result
    have hw := Store.widens_resolve hready hr
    have hc' := hc.widen hready hw
    have hnamed := hname.names hready hr
    have hfirst := resolveLeaf_of_names (m := m.noted [.leaf c, .leaf h]) hword hr
    cases hr' : s.resolve (unqualified word) with
    | error e =>
      obtain ⟨space, rfl⟩ := Store.resolve_error hr'
      refine .inl ⟨space, { m.noted [.leaf c, .leaf h] with store := s }, fun host steps => ?_⟩
      rw [perform_include_name host steps hc' hfirst hnamed, Action.bind_apply,
        requestWords_failure host steps (resolveLeaf_of_names_error hnamed hr')]
    | ok result' =>
      obtain ⟨n', s'⟩ := result'
      have hnamed' := (honly n s hr).names hw.ready hr'
      exact .inr ⟨_, _, loadsOnly_of_names hc' hfirst hnamed (resolveLeaf_of_names hnamed hr')
        hnamed'⟩

end Evaluation

/-- In any state that is reached, a bare word with nothing declared under it contributes its own
spelling to `include`, if there is no point in it: the word is resolved, and the module of that
path is loaded into the namespace of that name. If there is a point in it, it is another path that
is asked for: the word without what stands in front of its first point, or of its second one; or
else what stands there is no namespace, and nothing is loaded. For that, nothing may be declared
under the member either that the word is taken for. -/
theorem bare_word_loads_spelling {host : Host} {m : Machine}
    (hm : Reached host (fun _ => True) m) {c k h : Handle} {word : String}
    (hc : m.store.StandsForBuiltin c k .loadModule) (hword : m.store.Names h word)
    (hname : m.store.OnlyName word) :
    ('.' ∉ word.toList → ∃ n s, m.store.resolve word = .ok (n, s) ∧
      m.LoadsOnly [.leaf c, .leaf h] word [.leaf k, .leaf n]
        { m.noted [.leaf c, .leaf h] with store := s }) ∧
    ('.' ∈ word.toList →
      (∀ n s, m.store.resolve word = .ok (n, s) → s.OnlyName (unqualified word)) →
      unqualified (unqualified word) ≠ word ∧
        ((∃ space m₁, ∀ host' steps,
          perform host' (steps + 4) (.evaluate (.group [.leaf c, .leaf h])) m =
            .failure (.unknownNamespace space) m₁) ∨
        ∃ args m₁, m.LoadsOnly [.leaf c, .leaf h] (unqualified (unqualified word)) args m₁)) :=
  ⟨Evaluation.exists_loadsOnly hm.ready hc hword hname, fun hpoint honly =>
    ⟨unqualified_unqualified_ne hpoint,
      Evaluation.fails_or_loadsOnly hm.ready hc hword hname honly⟩⟩

/-- A word of one letter is asked for as it is. -/
theorem bare_word_loads_spelling_letter :
    ∃ m n s, Reached (Extension.Registry.host []) (fun _ => True) m ∧
      m.store.resolve "m" = .ok (n, s) ∧
      m.LoadsOnly [.leaf ⟨38, 0⟩, .leaf ⟨39, 0⟩] "m" [.leaf ⟨37, 0⟩, .leaf n]
        { m.noted [.leaf ⟨38, 0⟩, .leaf ⟨39, 0⟩] with store := s } := by
  have hrun : (perform (Extension.Registry.host []) 1 (.readText "include m\n") (.initial {})).test
      (fun _ m =>
        decide (m.store.arena.get? ⟨38, 0⟩ = some (.name "include" 0) ∧
          m.store.scopes.bound? "include" = some ⟨37, 0⟩ ∧
          m.store.arena.get? ⟨37, 0⟩ = some (inFront "include" .loadModule) ∧
          m.store.arena.get? ⟨39, 0⟩ = some (.name "m" 0)) &&
        (m.store.resolve "m").toOption.all fun result =>
          (result.2.arena.get? result.1).any Identifier.isUndefined) = true := by
    decide +kernel
  obtain ⟨_, m, hread, hrun⟩ := Outcome.exists_of_test hrun
  obtain ⟨hleaves, hresolve⟩ := Bool.and_eq_true_iff.mp hrun
  obtain ⟨hinclude, hbound, hfunction, hword⟩ := of_decide_eq_true hleaves
  have hreached : Reached (Extension.Registry.host []) (fun _ => True) m :=
    .value (.initial {}) trivial .here hread
  have hc : m.store.StandsForBuiltin ⟨38, 0⟩ ⟨37, 0⟩ .loadModule :=
    ⟨⟨_, hinclude, Store.resolve_of_bound? hbound⟩, _, hfunction, rfl, rfl⟩
  obtain ⟨n, s, hr, hloads⟩ := (bare_word_loads_spelling hreached hc ⟨_, hword, rfl, rfl⟩
    (Store.onlyName_of_all hresolve)).1 (by decide)
  exact ⟨m, n, s, hreached, hr, hloads⟩

/-- There is a module with the path `./m`, and nothing is declared under that word; but `include`
asks for the member `/m` of the default namespace. -/
theorem bare_word_of_relative_path_not_found :
    let host := Extension.Registry.host [("./m", [])]
    (∃ entry, host.openModule "./m" = .ok entry) ∧ (Machine.initial {}).store.OnlyName "./m" ∧
      ∃ m, perform host 14 (.runTextTopLevel "include ./m\n") (.initial {}) =
        .failure (.moduleOpen "/m" "no module registered under this path") m := by
  intro host
  have hname : (Machine.initial {}).store.OnlyName "./m" :=
    Store.onlyName_of_all (by decide +kernel)
  have hrun : (((perform host 14 (.runTextTopLevel "include ./m\n")).attempt
        (.initial {})).answer? =
          some (.error (.moduleOpen "/m" "no module registered under this path"))) := by
    decide +kernel
  obtain ⟨m, hend⟩ := Outcome.exists_of_answer? hrun
  exact ⟨⟨_, rfl⟩, hname, m, Action.eq_failure_of_attempt hend⟩

end WordScript
