import Mathlib.Logic.Function.Iterate
import WordScript.Proofs.Involved

/-!
# Output that is limited

The same action is carried out on two machines that differ only in the limit to their output: there
is none for the first one. Whatever both write before the limit is the same, and as long as it is
not exceeded, nothing else tells them apart. The piece that would exceed it is not written; the
action fails there, and so does everything around it, which leaves its blocks and does nothing more.
The rules say how that comes about one action after the other.
-/

namespace WordScript

/-! ## Pieces of output -/

/-- The number of bytes of pieces of output. -/
def totalBytes (pieces : List String) : Nat :=
  pieces.foldr (fun w bytes => w.utf8ByteSize + bytes) 0

theorem totalBytes_cons (w : String) (ws : List String) :
    totalBytes (w :: ws) = w.utf8ByteSize + totalBytes ws := rfl

theorem totalBytes_singleton (w : String) : totalBytes [w] = w.utf8ByteSize := rfl

theorem totalBytes_append (ws ws' : List String) :
    totalBytes (ws ++ ws') = totalBytes ws + totalBytes ws' := by
  induction ws with
  | nil => exact (Nat.zero_add _).symm
  | cons w ws ih => rw [List.cons_append, totalBytes_cons, totalBytes_cons, ih, Nat.add_assoc]

theorem totalBytes_reverse (ws : List String) : totalBytes ws.reverse = totalBytes ws := by
  induction ws with
  | nil => rfl
  | cons w ws ih =>
    rw [List.reverse_cons, totalBytes_append, totalBytes_singleton, totalBytes_cons, ih,
      Nat.add_comm]

theorem totalBytes_take_le (ws : List String) (i : Nat) :
    totalBytes (ws.take i) ≤ totalBytes ws := by
  have hsplit := totalBytes_append (ws.take i) (ws.drop i)
  rw [List.take_append_drop] at hsplit
  omega

namespace Sink

theorem size_eq (s : Sink) : s.size = totalBytes s.pieces := rfl

theorem size_of_pieces {s s' : Sink} {ws : List String}
    (h : s'.pieces = ws.reverse ++ s.pieces) : s'.size = s.size + totalBytes ws := by
  rw [size_eq, size_eq, h, totalBytes_append, totalBytes_reverse, Nat.add_comm]

/-- The pieces fit into a sink that holds so many bytes already. Even one that holds too many takes
no pieces at all. -/
def Fits (limit used : Nat) (ws : List String) : Prop :=
  ws = [] ∨ used + totalBytes ws ≤ limit

theorem fits_nil (limit used : Nat) : Fits limit used [] :=
  .inl rfl

theorem Fits.append {limit used : Nat} {ws ws' : List String} (h : Fits limit used ws)
    (h' : Fits limit (used + totalBytes ws) ws') : Fits limit used (ws ++ ws') := by
  rcases h' with rfl | h'
  · rwa [List.append_nil]
  · right
    rw [totalBytes_append]
    omega

/-- All of the pieces fit when they do together. -/
theorem Fits.take {limit used : Nat} {ws : List String} (h : Fits limit used ws) {i : Nat}
    (hi : 0 < i) (hlength : i ≤ ws.length) : used + totalBytes (ws.take i) ≤ limit := by
  rcases h with rfl | h
  · rw [List.length_nil] at hlength
    omega
  · have hle := totalBytes_take_le ws i
    omega

end Sink

/-! ## Machines and outcomes under a limit -/

namespace Machine

/-- The machine with another limit to its output, or with none. -/
def withLimit (limit : Option Nat) (m : Machine) : Machine :=
  { m with sink := { m.sink with limit } }

/-- These pieces have been written, one after the other. -/
def Writes (ws : List String) (m m' : Machine) : Prop :=
  m'.sink = { m.sink with pieces := ws.reverse ++ m.sink.pieces }

section Writes

variable {m m' m'' : Machine} {ws ws' : List String}

theorem writes_nil (h : m'.sink = m.sink) : m.Writes [] m' := h

theorem Writes.trans (h : m.Writes ws m') (h' : m'.Writes ws' m'') :
    m.Writes (ws ++ ws') m'' := by
  rw [Writes, h', h]
  simp

theorem Writes.size (h : m.Writes ws m') : m'.sink.size = m.sink.size + totalBytes ws :=
  Sink.size_of_pieces (by rw [h])

theorem Writes.limit (h : m.Writes ws m') : m'.sink.limit = m.sink.limit := by
  rw [h]

theorem Writes.withLimit (h : m.Writes ws m') (limit : Option Nat) :
    (m.withLimit limit).Writes ws (m'.withLimit limit) := by
  rw [Writes] at h
  simp only [Writes, Machine.withLimit, h]

/-- What has been written tells the pieces. -/
theorem Writes.eq (h : m.Writes ws m') (h' : m.Writes ws' m') : ws = ws' := by
  have hpieces : ws.reverse ++ m.sink.pieces = ws'.reverse ++ m.sink.pieces := by
    rw [Writes, h] at h'
    exact congrArg Sink.pieces h'
  exact List.reverse_injective (List.append_cancel_right hpieces)

end Writes

/-- Nothing but output tells the machines apart. -/
def OnlyOutput (m m' : Machine) : Prop :=
  m' = { m with sink := m'.sink }

section OnlyOutput

variable {m m' m'' : Machine}

theorem OnlyOutput.refl (m : Machine) : m.OnlyOutput m := rfl

theorem OnlyOutput.trans (h : m.OnlyOutput m') (h' : m'.OnlyOutput m'') : m.OnlyOutput m'' := by
  rw [OnlyOutput] at h h' ⊢
  rw [h', h]

end OnlyOutput

/-- The current block is left, whether or not that goes well. -/
def leaveBlock (host : Host) (m : Machine) : Machine :=
  { m with
    store := (m.store.leave (host.arrange m.blocksLeft)).2
    blocksLeft := m.blocksLeft + 1 }

theorem OnlyOutput.leaveBlock {m m' : Machine} (h : m.OnlyOutput m') (host : Host) :
    (m.leaveBlock host).OnlyOutput (m'.leaveBlock host) := by
  rw [OnlyOutput] at h
  rw [h]
  rfl

theorem OnlyOutput.iterate_leaveBlock {m m' : Machine} (h : m.OnlyOutput m') (host : Host)
    (k : Nat) :
    ((Machine.leaveBlock host)^[k] m).OnlyOutput ((Machine.leaveBlock host)^[k] m') := by
  induction k with
  | zero => exact h
  | succ k ih =>
    rw [Function.iterate_succ_apply', Function.iterate_succ_apply']
    exact ih.leaveBlock host

end Machine

namespace Outcome

variable {α : Type}

/-- The same outcome on a machine that has been changed. -/
def onMachine (f : Machine → Machine) : Outcome α → Outcome α
  | value a m => value a (f m)
  | failure e m => failure e (f m)
  | cutOff => cutOff

end Outcome

namespace Evaluation

open WordScript.Action WordScript.Machine

/-! ## Actions that are cut short -/

section CutShort

variable {α : Type} {limit : Nat} {S S' : Machine → Prop} {m m₁ : Machine} {ws : List String}
  {o o' : Outcome α}

/-- Of the pieces that were to be written, only those have been that come before the first one to
exceed the limit; the action has failed there, on a machine that meets a condition. -/
inductive Stopped (limit : Nat) (S : Machine → Prop) (m : Machine) : List String → Outcome α → Prop
  | intro {before after : List String} {w : String} {m' : Machine}
      (hfits : Sink.Fits limit m.sink.size before)
      (hfull : limit < m.sink.size + totalBytes before + w.utf8ByteSize)
      (hwrites : (m.withLimit (some limit)).Writes before m') (hS : S m') :
      Stopped limit S m (before ++ w :: after) (.failure (.stream "sink full") m')

theorem Stopped.imp (h : Stopped limit S m ws o) (himp : ∀ m', S m' → S' m') :
    Stopped limit S' m ws o := by
  obtain ⟨hfits, hfull, hwrites, hS⟩ := h
  exact .intro hfits hfull hwrites (himp _ hS)

/-- What has stopped has written as many pieces as fit one after the other. -/
theorem Stopped.exists_take (h : Stopped limit S m ws o) :
    ∃ j < ws.length,
      (∀ i, 0 < i → i ≤ j → m.sink.size + totalBytes (ws.take i) ≤ limit) ∧
      limit < m.sink.size + totalBytes (ws.take (j + 1)) ∧
      ∃ m', o = .failure (.stream "sink full") m' ∧
        (m.withLimit (some limit)).Writes (ws.take j) m' ∧ S m' := by
  obtain @⟨before, after, w, m', hfits, hfull, hbefore, hS⟩ := h
  refine ⟨before.length, ?_, ?_, ?_, m', rfl, ?_, hS⟩
  · rw [List.length_append, List.length_cons]
    omega
  · intro i hi hle
    rw [List.take_append_of_le_length hle]
    exact hfits.take hi hle
  · have htake : (before ++ w :: after).take (before.length + 1) = before ++ [w] := by
      rw [List.take_length_add_append]
      rfl
    rw [htake, totalBytes_append, totalBytes_singleton]
    omega
  · rwa [List.take_left]

/-- How an action ends under a limit, when it ends in some way without one: in the same way if all
that is written fits, and otherwise it stops. -/
def CutShort (limit : Nat) (S : Machine → Prop) (m : Machine) (o o' : Outcome α) : Prop :=
  ∀ m', o.machine? = some m' → ∃ ws, m.Writes ws m' ∧
    (Sink.Fits limit m.sink.size ws ∧ o' = o.onMachine (withLimit (some limit)) ∨
      Stopped limit S m ws o')

theorem CutShort.imp (h : CutShort limit S m o o') (himp : ∀ m', S m' → S' m') :
    CutShort limit S' m o o' := by
  intro m' hm'
  obtain ⟨ws, hwrites, hend⟩ := h m' hm'
  exact ⟨ws, hwrites, hend.imp id fun hstopped => hstopped.imp himp⟩

theorem cutShort_cutOff : CutShort limit S m .cutOff o' := nofun

/-- What has stopped does not end in the same way. -/
theorem Stopped.ne (h : Stopped limit S m ws o') (hmachine : o.machine? = some m₁)
    (hwrites : m.Writes ws m₁) : o' ≠ o.onMachine (withLimit (some limit)) := by
  obtain ⟨-, -, hbefore, -⟩ := h
  cases o with
  | value a m' => nofun
  | failure e m' =>
    intro hsame
    obtain ⟨-, rfl⟩ := Outcome.failure.inj hsame
    obtain rfl := Option.some.inj hmachine
    have heq := congrArg List.length (hbefore.eq (hwrites.withLimit (some limit)))
    rw [List.length_append, List.length_cons] at heq
    omega
  | cutOff => cases hmachine

theorem CutShort.limit_of_value {a : α} (h : CutShort limit S m o o') (hvalue : o = .value a m₁) :
    m₁.sink.limit = m.sink.limit := by
  obtain ⟨ws, hwrites, -⟩ := h m₁ (by rw [hvalue]; rfl)
  exact hwrites.limit

/-- What comes next is cut short, after all that came first has been written. -/
theorem Stopped.after {ws' : List String} (hwrites : m.Writes ws m₁)
    (hfits : Sink.Fits limit m.sink.size ws) (h : Stopped limit S m₁ ws' o) :
    Stopped limit S m (ws ++ ws') o := by
  obtain ⟨hfits', hfull, hbefore, hS⟩ := h
  rw [hwrites.size] at hfits' hfull
  rw [← List.append_assoc]
  refine .intro (hfits.append hfits') ?_ ((hwrites.withLimit _).trans hbefore) hS
  rw [totalBytes_append]
  omega

variable {β : Type} {y : Action α} {g : α → Action β}

/-- What comes first has been cut short, and all that comes next is left out. -/
theorem Stopped.bind {ws' : List String} (h : Stopped limit S m ws (y m₁)) :
    Stopped limit S m (ws ++ ws') ((y >>= g) m₁) := by
  rw [Action.bind_apply]
  generalize y m₁ = o at h ⊢
  obtain ⟨hfits, hfull, hwrites, hS⟩ := h
  rw [List.append_assoc, List.cons_append]
  exact .intro hfits hfull hwrites hS

/-- What comes next is cut short, or what came first has been already. -/
theorem CutShort.bind_value {a : α}
    (hy : CutShort limit S m (.value a m₁) (y (m.withLimit (some limit))))
    (hg : CutShort limit S m₁ (g a m₁) (g a (m₁.withLimit (some limit)))) :
    CutShort limit S m (g a m₁) ((y >>= g) (m.withLimit (some limit))) := by
  intro m' hm'
  obtain ⟨ws, hwrites, hend⟩ := hy m₁ rfl
  obtain ⟨ws', hwrites', hend'⟩ := hg m' hm'
  refine ⟨ws ++ ws', hwrites.trans hwrites', ?_⟩
  rcases hend with ⟨hfits, hsame⟩ | hstopped
  · have hnext : (y >>= g) (m.withLimit (some limit)) = g a (m₁.withLimit (some limit)) := by
      rw [Action.bind_apply, hsame]
      rfl
    rw [hnext]
    rcases hend' with ⟨hfits', hsame'⟩ | hstopped'
    · rw [hwrites.size] at hfits'
      exact .inl ⟨hfits.append hfits', hsame'⟩
    · exact .inr (hstopped'.after hwrites hfits)
  · exact .inr hstopped.bind

/-- Nothing comes next where what came first fails, whether or not it was cut short. -/
theorem CutShort.bind_failure {e : RuntimeError}
    (hy : CutShort limit S m (.failure e m₁ : Outcome α) (y (m.withLimit (some limit)))) :
    CutShort limit S m (.failure e m₁) ((y >>= g) (m.withLimit (some limit))) := by
  intro m' hm'
  obtain ⟨ws, hwrites, hend⟩ := hy m' hm'
  refine ⟨ws, hwrites, ?_⟩
  rcases hend with ⟨hfits, hsame⟩ | hstopped
  · rw [Action.bind_apply, hsame]
    exact .inl ⟨hfits, rfl⟩
  · rw [← List.append_nil ws]
    exact .inr hstopped.bind

theorem CutShort.bind
    (hy : CutShort limit S m (y m) (y (m.withLimit (some limit))))
    (hg : ∀ a m₁, y m = .value a m₁ →
      CutShort limit S m₁ (g a m₁) (g a (m₁.withLimit (some limit)))) :
    CutShort limit S m ((y >>= g) m) ((y >>= g) (m.withLimit (some limit))) := by
  rw [Action.bind_apply y g m]
  cases hym : y m with
  | value a m₁ =>
    rw [hym] at hy
    exact hy.bind_value (hg a m₁ hym)
  | failure e m₁ =>
    rw [hym] at hy
    exact hy.bind_failure
  | cutOff => exact cutShort_cutOff

end CutShort

/-! ## Where actions stop -/

section Rules

variable {α β : Type} {host : Host} {limit : Nat} {self : Performer} {writes : Prop}
  {m m₁ m₂ : Machine} {x : Performer → Action α} {f : α → Performer → Action β}

/-- The operation is not cut short as it should be. -/
def Overruns (limit : Nat) (self : Performer) (op : Operation) (m : Machine) : Prop :=
  m.sink.limit = none ∧
    ¬ CutShort limit (fun _ => True) m (self op m) (self op (m.withLimit (some limit)))

/-- The operation stops under the limit, on some machine. -/
def StopsAt (limit : Nat) (self : Performer) (m' : Machine) (op : Operation) (m : Machine) : Prop :=
  m.sink.limit = none ∧
    self op (m.withLimit (some limit)) = .failure (.stream "sink full") m' ∧
    self op (m.withLimit (some limit)) ≠ (self op m).onMachine (withLimit (some limit))

/-- The operation gives a value, on some machine. -/
def GivesValueOn (self : Performer) (m' : Machine) (op : Operation) (m : Machine) : Prop :=
  ∃ a, self op m = .value a m'

/-- Whatever the action does from here to there, it does by operations that it involves; by itself
it only writes. -/
def Leads (self : Performer) (x : Performer → Action α) (m m' : Machine) : Prop :=
  m.OnlyOutput m' ∨ ∃ m₁, Involves (GivesValueOn self m₁) self x m ∧ m₁.OnlyOutput m'

theorem Leads.bind (h : Leads self x m m₁) :
    Leads self (fun self => x self >>= fun a => f a self) m m₁ := by
  rcases h with h | ⟨m₂, hop, h⟩
  · exact .inl h
  · exact .inr ⟨m₂, hop.bind, h⟩

theorem Leads.bind_value (hx : Sequential x) {a : α} (hvalue : x self m = .value a m₁)
    (hleads : Leads self x m m₁) (h : Leads self (f a) m₁ m₂) :
    Leads self (fun self => x self >>= fun a => f a self) m m₂ := by
  rcases h with h | ⟨m₃, hop, h⟩
  · rcases hleads with hfirst | ⟨m₃, hop, hfirst⟩
    · exact .inl (hfirst.trans h)
    · exact .inr ⟨m₃, hop.bind, hfirst.trans h⟩
  · exact .inr ⟨m₃, hop.bind_value hx hvalue, h⟩

/-- Where the action stops: where it would write by itself, if it does that, or where an operation
stops that it involves, once the blocks around that have been left. -/
inductive StopsOn (host : Host) (limit : Nat) (writes : Prop) (self : Performer)
    (x : Performer → Action α) (m : Machine) : Machine → Prop
  | here {m₁ m' : Machine} (hwrites : writes) (hleads : Leads self x m m₁)
      (hout : m₁.OnlyOutput m') : StopsOn host limit writes self x m m'
  | inside {m' : Machine} (k : Nat) (hop : Involves (StopsAt limit self m') self x m) :
      StopsOn host limit writes self x m ((leaveBlock host)^[k] m')

theorem StopsOn.bind (h : StopsOn host limit writes self x m m₁) :
    StopsOn host limit writes self (fun self => x self >>= fun a => f a self) m m₁ := by
  cases h with
  | here hwrites hleads hout => exact .here hwrites hleads.bind hout
  | inside k hop => exact .inside k hop.bind

theorem StopsOn.bind_value (hx : Sequential x) {a : α} (hvalue : x self m = .value a m₁)
    (hleads : writes → Leads self x m m₁) (h : StopsOn host limit writes self (f a) m₁ m₂) :
    StopsOn host limit writes self (fun self => x self >>= fun a => f a self) m m₂ := by
  cases h with
  | here hwrites h hout => exact .here hwrites ((hleads hwrites).bind_value hx hvalue h) hout
  | inside k hop => exact .inside k (hop.bind_value hx hvalue)

/-- The action is cut short as it should be, and leads on where it writes by itself, unless an
operation is not cut short that it involves. -/
def Cuts (host : Host) (limit : Nat) (writes : Prop) (self : Performer) (x : Performer → Action α)
    (m : Machine) : Prop :=
  m.sink.limit = none →
    (CutShort limit (StopsOn host limit writes self x m) m (x self m)
        (x self (m.withLimit (some limit))) ∧
      (writes → ∀ a m', x self m = .value a m' → Leads self x m m')) ∨
    Involves (Overruns limit self) self x m

theorem cuts_ask (op : Operation) : Cuts host limit writes self (fun self => self op) m := by
  intro hlimit
  by_cases h :
      CutShort limit (fun _ => True) m (self op m) (self op (m.withLimit (some limit)))
  · left
    constructor
    · intro m' hm'
      obtain ⟨ws, hwrites, hsame | hstopped⟩ := h m' hm'
      · exact ⟨ws, hwrites, .inl hsame⟩
      · have hne := hstopped.ne hm' hwrites
        refine ⟨ws, hwrites, .inr ?_⟩
        change Stopped limit _ m ws (self op (m.withLimit (some limit)))
        generalize ho : self op (m.withLimit (some limit)) = o at hstopped ⊢
        obtain ⟨hfits, hfull, hbefore, -⟩ := hstopped
        exact .intro hfits hfull hbefore (StopsOn.inside 0 (involves_ask ⟨hlimit, ho, hne⟩))
    · intro _ a m' hvalue
      exact .inr ⟨m', involves_ask ⟨a, hvalue⟩, .refl m'⟩
  · exact .inr (involves_ask ⟨hlimit, h⟩)

theorem Cuts.bind (hseq : Sequential x) (hx : Cuts host limit writes self x m)
    (hf : ∀ a m₁, x self m = .value a m₁ → Cuts host limit writes self (f a) m₁) :
    Cuts host limit writes self (fun self => x self >>= fun a => f a self) m := by
  intro hlimit
  by_cases hinvolves :
      Involves (Overruns limit self) self (fun self => x self >>= fun a => f a self) m
  · exact .inr hinvolves
  obtain ⟨hcut, hleads⟩ := (hx hlimit).resolve_right fun h => hinvolves h.bind
  have hrest : ∀ a m₁, x self m = .value a m₁ →
      CutShort limit (StopsOn host limit writes self (f a) m₁) m₁ (f a self m₁)
          (f a self (m₁.withLimit (some limit))) ∧
        (writes → ∀ b m', f a self m₁ = .value b m' → Leads self (f a) m₁ m') := by
    intro a m₁ hxm
    have hlimit₁ : m₁.sink.limit = none := (hcut.limit_of_value hxm).trans hlimit
    exact (hf a m₁ hxm hlimit₁).resolve_right fun h => hinvolves (h.bind_value hseq hxm)
  left
  constructor
  · refine (hcut.imp fun _ => StopsOn.bind).bind fun a m₁ hxm => ?_
    refine (hrest a m₁ hxm).1.imp fun _ h => h.bind_value hseq hxm fun hw => ?_
    exact hleads hw a m₁ hxm
  · intro hw b m' hvalue
    simp only [Action.bind_apply] at hvalue
    split at hvalue
    · next a m₁ hxm =>
      exact (hleads hw a m₁ hxm).bind_value hseq hxm ((hrest a m₁ hxm).2 hw b m' hvalue)
    · cases hvalue
    · cases hvalue

end Rules

/-! ## Actions that are cut short wherever they are carried out -/

/-- On every machine, the action is cut short as it should be. -/
structure Truncates {α : Type} (host : Host) (limit : Nat) (writes : Prop) (performer : Performer)
    (x : Performer → Action α) : Prop where
  sequential : Sequential x
  cuts : ∀ m, Cuts host limit writes performer x m

/-- The action leaves the output alone, and its limit makes no difference to it. -/
def Mute {α : Type} (limit : Nat) (y : Action α) : Prop :=
  ∀ m, (∀ m', (y m).machine? = some m' → m'.sink = m.sink) ∧
    y (m.withLimit (some limit)) = (y m).onMachine (withLimit (some limit))

theorem eq_of_identifier {h : Handle} {i : Identifier} {m m' : Machine}
    (hvalue : identifier h m = .value i m') : m.store.arena.get? h = some i ∧ m' = m := by
  rw [identifier] at hvalue
  split at hvalue
  · next j hj =>
    obtain ⟨rfl, rfl⟩ := Outcome.value.inj hvalue
    exact ⟨hj, rfl⟩
  · cases hvalue

section Mute

variable {α : Type} {limit : Nat}

/-- An action that always gives a value, and neither looks at the output nor changes it. -/
theorem mute_value {y : Action α} {f : Machine → α} {g : Machine → Machine}
    (hy : ∀ m, y m = .value (f m) (g m)) (hsink : ∀ m, (g m).sink = m.sink)
    (hf : ∀ m, f (m.withLimit (some limit)) = f m)
    (hg : ∀ m, g (m.withLimit (some limit)) = (g m).withLimit (some limit)) : Mute limit y := by
  intro m
  rw [hy, hy, hf, hg]
  refine ⟨fun m' hm' => ?_, rfl⟩
  obtain rfl := Option.some.inj hm'
  exact hsink m

theorem mute_pure (a : α) : Mute limit (pure a : Action α) :=
  mute_value (fun _ => rfl) (fun _ => rfl) (fun _ => rfl) fun _ => rfl

theorem mute_fail (e : RuntimeError) : Mute limit (fail e : Action α) := by
  intro m
  refine ⟨fun m' hm' => ?_, rfl⟩
  obtain rfl := Option.some.inj hm'
  rfl

theorem mute_identifier (h : Handle) : Mute limit (identifier h) := by
  intro m
  have hstore : (m.withLimit (some limit)).store = m.store := rfl
  simp only [identifier, hstore]
  cases m.store.arena.get? h with
  | some i => exact mute_pure i m
  | none => exact mute_fail (.invalidReference h) m

theorem mute_tryStore (f : Store → Except RuntimeError (α × Store)) :
    Mute limit (tryStore f) := by
  intro m
  have hstore : (m.withLimit (some limit)).store = m.store := rfl
  simp only [tryStore, hstore]
  cases f m.store with
  | ok result =>
    constructor
    · intro m' hm'
      obtain rfl := Option.some.inj hm'
      rfl
    · rfl
  | error e => exact mute_fail e m

theorem mute_onStore (f : Store → α × Store) : Mute limit (onStore f) :=
  mute_value (fun _ => rfl) (fun _ => rfl) (fun _ => rfl) fun _ => rfl

theorem mute_resolve (name : String) : Mute limit (resolve name) := mute_tryStore _

theorem mute_declare (i : Identifier) : Mute limit (declare i) := mute_tryStore _

theorem mute_setValue (h : Handle) (value : Value) : Mute limit (setValue h value) :=
  mute_tryStore _

theorem mute_pushTemporary (i : Identifier) : Mute limit (pushTemporary i) := mute_onStore _

theorem mute_readText (text : String) : Mute limit (readText text) := mute_onStore _

theorem mute_place : Mute limit place :=
  mute_value (fun _ => rfl) (fun _ => rfl) (fun _ => rfl) fun _ => rfl

theorem mute_note (es : List Expression) : Mute limit (note es) :=
  mute_value (fun _ => rfl) (fun _ => rfl) (fun _ => rfl) fun _ => rfl

theorem mute_flush : Mute limit flush := by
  intro m
  have hflush : (m.withLimit (some limit)).sink.flush = m.sink.flush := rfl
  simp only [flush, hflush]
  cases m.sink.flush with
  | ok => exact mute_pure () m
  | error e => exact mute_fail e m

end Mute

section Truncates

variable {α β : Type} {host : Host} {limit : Nat} {self : Performer} {writes : Prop}
  {x : Performer → Action α} {f : α → Performer → Action β}

/-- What leaves the output alone is not cut short. It leads on if it does nothing at all. -/
theorem truncates_mute {y : Action α} (hy : Mute limit y)
    (hstill : writes → ∀ m a m', y m = .value a m' → m' = m) :
    Truncates host limit writes self fun _ => y := by
  refine ⟨sequential_const y, fun m _ => .inl ⟨?_, ?_⟩⟩
  · intro m' hm'
    exact ⟨[], writes_nil ((hy m).1 m' hm'), .inl ⟨Sink.fits_nil _ _, (hy m).2⟩⟩
  · intro hw a m' hvalue
    obtain rfl := hstill hw m a m' hvalue
    exact .inl (.refl _)

theorem truncates_pure (a : α) : Truncates host limit writes self fun _ => pure a := by
  refine truncates_mute (mute_pure a) fun _ m _ m' hvalue => ?_
  exact (Outcome.value.inj hvalue).2.symm

theorem truncates_fail (e : RuntimeError) :
    Truncates host limit writes self fun _ => (fail e : Action α) :=
  truncates_mute (mute_fail e) nofun

theorem truncates_ofExcept (result : Except RuntimeError α) :
    Truncates host limit writes self fun _ => ofExcept result := by
  cases result with
  | ok a => exact truncates_pure a
  | error e => exact truncates_fail e

theorem truncates_identifier (h : Handle) :
    Truncates host limit writes self fun _ => identifier h := by
  refine truncates_mute (mute_identifier h) fun _ m i m' hvalue => ?_
  exact (eq_of_identifier hvalue).2

theorem truncates_flush : Truncates host limit writes self fun _ => flush := by
  refine truncates_mute mute_flush fun _ m _ m' hvalue => ?_
  rw [flush] at hvalue
  split at hvalue
  · exact (Outcome.value.inj hvalue).2.symm
  · cases hvalue

/-- Something that is not output may be done by an action that does not write. -/
theorem truncates_silent {y : Action α} (hy : Mute limit y) :
    Truncates host limit False self fun _ => y :=
  truncates_mute hy nofun

/-- A text is written if it fits. -/
theorem truncates_write (text : String) :
    Truncates host limit True self fun _ => write text := by
  refine ⟨sequential_const _, fun m hlimit => .inl ⟨?_, ?_⟩⟩
  · intro m' hm'
    have hroom : m.sink.hasRoom text.utf8ByteSize = true := by
      rw [Sink.hasRoom, hlimit]
    by_cases hempty : text = ""
    · simp only [write, Sink.write, hempty, if_true] at hm' ⊢
      obtain rfl := Option.some.inj hm'
      exact ⟨[], writes_nil rfl, .inl ⟨Sink.fits_nil _ _, rfl⟩⟩
    · simp only [write, Sink.write, hempty, if_false, hroom, if_true] at hm' ⊢
      obtain rfl := Option.some.inj hm'
      refine ⟨[text], rfl, ?_⟩
      by_cases hfits : m.sink.size + text.utf8ByteSize ≤ limit
      · left
        have hroom' : (m.withLimit (some limit)).sink.hasRoom text.utf8ByteSize = true :=
          decide_eq_true hfits
        rw [if_pos hroom']
        refine ⟨.inr ?_, rfl⟩
        rwa [totalBytes_singleton]
      · right
        have hroom' : ¬ (m.withLimit (some limit)).sink.hasRoom text.utf8ByteSize = true :=
          fun h => hfits (of_decide_eq_true h)
        rw [if_neg hroom']
        have hfull : limit < m.sink.size + totalBytes [] + text.utf8ByteSize :=
          Nat.lt_of_not_le hfits
        exact .intro (Sink.fits_nil _ _) hfull (writes_nil rfl)
          (.here trivial (.inl (.refl m)) rfl)
  · intro _ a m' hvalue
    left
    rw [write] at hvalue
    split at hvalue
    · obtain ⟨-, rfl⟩ := Outcome.value.inj hvalue
      rfl
    · cases hvalue

theorem truncates_ask (op : Operation) : Truncates host limit writes self fun self => self op :=
  ⟨sequential_ask op, fun _ => cuts_ask op⟩

theorem Truncates.bind (hx : Truncates host limit writes self x)
    (hf : ∀ a, Truncates host limit writes self (f a)) :
    Truncates host limit writes self fun self => x self >>= fun a => f a self where
  sequential := hx.sequential.bind fun a => (hf a).sequential
  cuts m := (hx.cuts m).bind hx.sequential fun a m₁ _ => (hf a).cuts m₁

theorem Truncates.ite {c : Prop} [Decidable c] {y : Performer → Action α}
    (hx : Truncates host limit writes self x) (hy : Truncates host limit writes self y) :
    Truncates host limit writes self fun self => if c then x self else y self := by
  by_cases hc : c
  · simpa only [hc, if_true] using hx
  · simpa only [hc, if_false] using hy

theorem truncates_concatMap {f : Performer → α → Action (List β)}
    (hf : ∀ a, Truncates host limit writes self fun self => f self a) (as : List α) :
    Truncates host limit writes self fun self => concatMap (f self) as := by
  induction as with
  | nil => exact truncates_pure _
  | cons a as ih => exact (hf a).bind fun _ => ih.bind fun _ => truncates_pure _

theorem truncates_forEach {f : Performer → α → Action Unit}
    (hf : ∀ a, Truncates host limit writes self fun self => f self a) (as : List α) :
    Truncates host limit writes self fun self => forEach (f self) as := by
  induction as with
  | nil => exact truncates_pure _
  | cons a as ih => exact (hf a).bind fun _ => ih

theorem truncates_repeatWhile {condition : Performer → Action Bool}
    {body : Performer → Action Unit} (hcondition : Truncates host limit writes self condition)
    (hbody : Truncates host limit writes self body) (n : Nat) :
    Truncates host limit writes self fun self => repeatWhile (condition self) (body self) n := by
  induction n with
  | zero =>
    refine ⟨sequential_const _, fun m _ => .inl ⟨cutShort_cutOff, ?_⟩⟩
    intro _ a m' hvalue
    cases hvalue
  | succ n ih =>
    apply hcondition.bind
    intro holds
    exact Truncates.ite (hbody.bind fun _ => ih) (truncates_pure _)

/-- A block is left wherever its action ends. -/
theorem machine?_inFrame (host : Host) (y : Action α) (m : Machine) :
    (Evaluation.inFrame host y m).machine? =
      (y { m with store := m.store.enter }).machine?.map (leaveBlock host) := by
  simp only [Evaluation.inFrame]
  cases y { m with store := m.store.enter } with
  | value a m₁ =>
    simp only
    cases (m₁.store.leave (host.arrange m₁.blocksLeft)).1 <;> rfl
  | failure e m₁ => rfl
  | cutOff => rfl

theorem inFrame_failure {y : Action α} {m m₁ : Machine} {e : RuntimeError}
    (h : y { m with store := m.store.enter } = .failure e m₁) :
    Evaluation.inFrame host y m = .failure e (m₁.leaveBlock host) := by
  simp only [Evaluation.inFrame, h]
  rfl

/-- Leaving a block does not depend on the output. -/
theorem inFrame_withLimit {y : Action α} {m : Machine} {l : Option Nat}
    (h : y (withLimit l { m with store := m.store.enter }) =
      (y { m with store := m.store.enter }).onMachine (withLimit l)) :
    Evaluation.inFrame host y (m.withLimit l) =
      (Evaluation.inFrame host y m).onMachine (withLimit l) := by
  have hstart : { m.withLimit l with store := (m.withLimit l).store.enter } =
      withLimit l { m with store := m.store.enter } := rfl
  simp only [Evaluation.inFrame, hstart, h]
  cases y { m with store := m.store.enter } with
  | value a m₁ =>
    have hstore : (m₁.withLimit l).store = m₁.store := rfl
    have hblocks : (m₁.withLimit l).blocksLeft = m₁.blocksLeft := rfl
    simp only [Outcome.onMachine, hstore, hblocks]
    cases (m₁.store.leave (host.arrange m₁.blocksLeft)).1 <;> rfl
  | failure e m₁ => rfl
  | cutOff => rfl

/-- What stops in a block also leaves it. -/
theorem StopsOn.inFrame {m m' : Machine}
    (h : StopsOn host limit False self x { m with store := m.store.enter } m') :
    StopsOn host limit False self (fun self => Evaluation.inFrame host (x self)) m
      (m'.leaveBlock host) := by
  cases h with
  | here hwrites _ _ => exact hwrites.elim
  | inside k hop =>
    rw [← Function.iterate_succ_apply' (leaveBlock host)]
    exact .inside (k + 1) (hop.inFrame host)

theorem Truncates.inFrame (hx : Truncates host limit False self x) :
    Truncates host limit False self fun self => Evaluation.inFrame host (x self) := by
  refine ⟨hx.sequential.inFrame host, fun m hlimit => ?_⟩
  rcases hx.cuts { m with store := m.store.enter } hlimit with ⟨hcut, -⟩ | hinvolves
  · refine .inl ⟨?_, nofun⟩
    intro m' hm'
    rw [machine?_inFrame] at hm'
    obtain ⟨m₁, hm₁, rfl⟩ := Option.map_eq_some_iff.mp hm'
    obtain ⟨ws, hwrites, hend⟩ := hcut m₁ hm₁
    refine ⟨ws, hwrites, ?_⟩
    rcases hend with ⟨hfits, hsame⟩ | hstopped
    · exact .inl ⟨hfits, inFrame_withLimit hsame⟩
    · right
      generalize ho : x self (withLimit (some limit) { m with store := m.store.enter }) = o
        at hstopped
      obtain ⟨hfits, hfull, hbefore, hS⟩ := hstopped
      rw [inFrame_failure (m := m.withLimit (some limit)) ho]
      exact .intro hfits hfull hbefore hS.inFrame
  · exact .inr (hinvolves.inFrame host)

end Truncates

end Evaluation

end WordScript
