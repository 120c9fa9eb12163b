import WordScript.Proofs.Nests
import WordScript.Proofs.SideBySide
import WordScript.Proofs.Texts
import WordScript.Proofs.Twins

/-!
# Running in a block or in the global frame

A program is run in a block of its own, and a text of a session in the global frame. What they
declare ends up at different depths, in a frame that is empty at first or in the one that binds the
vocabulary; but the vocabulary cannot be declared again, so that the block binds none of its words,
and could as well be part of the global frame. So both ways of running a text come to the same end,
unless its words reach around the block, as those that start with a point do, or it shows handles.
-/

namespace WordScript

/-- What programs may use that name no members of a namespace and do not dump: all names that are
not the word for dumping and do not start with a point. -/
def Repertoire.pointless : Repertoire where
  Word := fun name => name ≠ "dump" ∧ name.toList.head? ≠ some '.'
  Op := fun op => op ≠ .dump

/-- A name that does not start with a point is no member of the default namespace. -/
theorem ne_of_qualified? {name space member : String} (hname : name.toList.head? ≠ some '.')
    (hq : qualified? name = some (space, member)) : space ≠ "" := by
  rintro rfl
  unfold qualified? at hq
  cases hcs : name.toList with
  | nil => simp [hcs] at hq
  | cons c cs =>
    have hc : c ≠ '.' := by
      rintro rfl
      simp [hcs] at hname
    split at hq
    · contradiction
    · have hspace := congrArg String.toList (Prod.mk.inj (Option.some.inj hq)).1
      simp [hcs, hc] at hspace

/-- A nest, and twins the left one of which is the nest with its outermost block merged into the
global frame. -/
structure Merging where
  nest : Nest
  twins : Twins

namespace Merging

variable {w w' : Merging} {n : Nest} {h k : Handle} {i : Identifier}

/-- The stores belong together. -/
structure Valid (w : Merging) : Prop where
  merged : w.twins.left = w.nest.merged
  twins : w.twins.Valid .pointless
  apart : w.nest.Apart

/-- The handles may be values: a name that is still to be resolved is not one that the global frame
binds. -/
structure Given (w : Merging) (h k : Handle) : Prop where
  fits : w.twins.Fits .pointless h k
  free : ∀ {i}, w.nest.arena.get? h = some i → i.isUndefined = true →
    w.nest.globals.names.find? i.surface = none

/-- What evaluating may do. -/
structure Grows (w w' : Merging) : Prop where
  twins : w.twins.Grows .pointless w'.twins
  given : ∀ {h k}, w.Given h k → w'.Given h k
  globals : w'.nest.globals = w.nest.globals
  depth : w'.nest.blocks.length = w.nest.blocks.length

/-- What running statements may do. -/
structure Runs (w w' : Merging) : Prop where
  twins : w.twins.Runs .pointless w'.twins
  globals : w'.nest.globals = w.nest.globals
  depth : w'.nest.blocks.length = w.nest.blocks.length

/-- The store with the blocks belongs together with the other store of the twins. -/
abbrev coupling : Coupling where
  World := Merging
  left := fun w => w.nest.inside
  right := fun w => w.twins.right
  Valid := Valid
  Fits := fun w => w.twins.Fits .pointless
  Given := Given
  Lasts := fun w => w.twins.Lasts .pointless
  Grows := Grows
  Runs := Runs
  Loads := True
  Reads := (Twins.coupling .pointless).Reads

theorem Valid.get?_merged (hw : w.Valid) (h : Handle) :
    w.twins.left.arena.get? h = (w.nest.arena.get? h).map Identifier.lowered := by
  rw [hw.merged]
  exact w.nest.arena.get?_lowered h

theorem Valid.get?_lowered (hw : w.Valid) (hi : w.nest.arena.get? h = some i) :
    w.twins.left.arena.get? h = some i.lowered := by
  rw [hw.get?_merged, hi]
  rfl

/-- What the global frame binds is live. -/
theorem Valid.live (hw : w.Valid) : ∀ b ∈ w.nest.globals.names, w.nest.arena.IsLive b.2 := by
  intro b hb
  obtain ⟨f, fs, hjoined, hnames⟩ := Frame.exists_joined w.nest.globals w.nest.blocks
  have hframe : (w.nest.merged.scopes.frames "")[0]? = some f := by
    simp [Nest.merged, Scopes.frames, Bindings.find?, hjoined]
  have hbound : w.nest.merged.scopes.Binds 0 b.1 b.2 :=
    Scopes.binds_of_frames "" hframe (hnames hb)
  have hheld := Scopes.mem_held_of_binds hbound
  rw [← hw.merged] at hheld
  have hlive := hw.twins.alike.isLive_of_mem_held hheld
  rw [hw.merged] at hlive
  exact Arena.isLive_lowered.mp hlive

/-- Behind the handles is the same identifier, in a frame one level up. -/
theorem Valid.get? (hw : w.Valid) (hh : w.twins.Fits .pointless h k) :
    ∃ i, w.nest.arena.get? h = some i ∧ w.twins.right.arena.get? k = some i.lowered ∧
      i.lowered.IsDiscreet .pointless := by
  obtain ⟨j, hj, hj', hdiscreet, -⟩ := hw.twins.get? hh
  rw [hw.get?_merged] at hj
  obtain ⟨i, hi, rfl⟩ := Option.map_eq_some_iff.mp hj
  exact ⟨i, hi, hj', hdiscreet⟩

/-- Where a nest evolves along with the twins, what is given stays so. -/
theorem Valid.evolve (hw : w.Valid) (hn : w.nest.Evolves n) {t : Twins} (hl : t.left = n.merged)
    (ht : t.Valid .pointless) (hgrows : w.twins.Grows .pointless t) :
    Valid ⟨n, t⟩ ∧ w.Grows ⟨n, t⟩ := by
  refine ⟨⟨hl, ht, hn.apart⟩, hgrows, fun {h k} hh => ⟨hgrows.fits hh.fits, ?_⟩, hn.globals,
    hn.depth⟩
  intro i hi hundefined
  obtain ⟨j, hj, -⟩ := hw.get? hh.fits
  have hold := hn.kept (Arena.isLive_of_get? hj) hi hundefined
  rw [hn.globals]
  exact hh.free hold hundefined

variable {α β : Type} {P : Twins → α → β → Prop} {Q : Merging → α → β → Prop}

/-- What is done to the nest is done to the twins as well. -/
theorem Valid.reaches (hw : w.Valid) (hn : w.nest.Evolves n) {s s' : Store} {a : α} {b : β}
    (hs : s = n.inside)
    (ht : (Twins.coupling .pointless).Reaches w.twins (Twins.Grows .pointless) P n.merged s' a b)
    (hQ : ∀ t, P t a b → Q ⟨n, t⟩ a b) : coupling.Reaches w Grows Q s s' a b := by
  obtain ⟨t, hl, hr, hvalid, hgrows, hP⟩ := ht
  obtain ⟨hafter, hevolved⟩ := hw.evolve hn hl hvalid hgrows
  exact ⟨⟨n, t⟩, hs.symm, hr, hafter, hevolved, hQ t hP⟩

/-- Two answers, of the store with the blocks and of the merged one: the same error, or the same
value, on stores of one nest, of which something holds. -/
def Answers (n : Nest) (K : Nest → α → Prop) :
    Except RuntimeError (α × Store) → Except RuntimeError (α × Store) → Prop
  | .ok (a, s), .ok (a', s') =>
    a = a' ∧ ∃ n', s = Nest.inside n' ∧ s' = n'.merged ∧ n.Evolves n' ∧ K n' a
  | .error e, .error e' => e = e'
  | _, _ => False

theorem Valid.answers (hw : w.Valid) {K : Nest → α → Prop}
    {x y : Except RuntimeError (α × Store)} {z : Except RuntimeError (β × Store)}
    (hx : Answers w.nest K x y)
    (hz : (Twins.coupling .pointless).Answers w.twins (Twins.Grows .pointless) P y z)
    (hQ : ∀ n t a b, K n a → P t a b → Q ⟨n, t⟩ a b) : coupling.Answers w Grows Q x z := by
  rcases x with e | ⟨a, s⟩ <;> rcases y with e' | ⟨a', s'⟩ <;> rcases z with e'' | ⟨b, s''⟩ <;>
    first | exact hx.elim | exact hz.elim | skip
  · exact Eq.trans hx hz
  · obtain ⟨rfl, n, hs, hs', hn, hK⟩ := hx
    rw [hs'] at hz
    exact hw.reaches hn hs hz fun t hP => hQ n t _ _ hK hP

/-! ## The operations on the store -/

theorem evolves_refl (hw : w.Valid) : w.nest.Evolves w.nest :=
  ⟨hw.apart, rfl, rfl, fun _ hi _ => hi⟩

/-- A name is looked up. One with a namespace in front is of none that there is. -/
theorem Valid.resolve (hw : w.Valid) {name : String} (hname : Repertoire.pointless.Word name) :
    coupling.Answers w Grows Given (w.nest.inside.resolve name) (w.twins.right.resolve name) := by
  cases hq : qualified? name with
  | some found =>
    obtain ⟨space, member⟩ := found
    have hspace := ne_of_qualified? hname.2 hq
    have hinside : w.nest.inside.scopes.namespaces.find? space = none := by
      simp [Nest.inside, Bindings.find?, hspace.symm]
    have hright : w.twins.right.scopes.namespaces.find? space = none := by
      rcases optionRel_cases (hw.twins.alike.scopes.namespaces.find? space) with
        ⟨-, hnone⟩ | ⟨_, _, hsome, -, -⟩
      · exact hnone
      · rw [hw.merged] at hsome
        simp [Nest.merged, Bindings.find?, hspace.symm] at hsome
    simp only [Store.resolve, hq, hinside, hright]
    rfl
  | none =>
    have htwins := hw.twins.resolve_plain hname hq
    rw [hw.merged] at htwins
    refine hw.answers (K := fun n h => ∀ {i}, n.arena.get? h = some i → i.isUndefined = true →
      n.globals.names.find? i.surface = none) ?_ htwins fun n t h k hK hP => ⟨hP, hK⟩
    simp only [Store.resolve, hq, Nest.lookup?_merged hw.apart]
    cases hl : w.nest.inside.scopes.lookup? name with
    | none =>
      have hnone := Nest.find?_globals_of_lookup? hl
      have hraised : Nest.IsRaised w.nest.globals (.name name w.nest.blocks.length) := by
        intro hvariable
        cases hvariable
      have hmerged := Nest.define_merged (i := .name name w.nest.blocks.length) hw.apart hnone
      have hinside := Nest.define_inside hw.apart (.name name w.nest.blocks.length)
      change Answers w.nest _ (.ok (w.nest.inside.define (.name name w.nest.blocks.length)))
        (.ok (w.nest.merged.define (.name name w.nest.blocks.length : Identifier).lowered))
      rw [hmerged, hinside]
      refine ⟨rfl, _, rfl, rfl, Nest.evolves_defined hw.apart hw.live hraised hnone, ?_⟩
      intro j hj _
      obtain rfl := Arena.eq_of_get?_push hw.apart.tidy hj
      exact hnone
    | some h =>
      refine ⟨rfl, w.nest, rfl, rfl, evolves_refl hw, fun {j} hj hundefined => ?_⟩
      rcases Nest.mem_globals_of_lookup? hw.apart hl with hmem | hnone
      · have hfixed := hw.apart.globals _ hmem j hj
        rw [hundefined] at hfixed
        contradiction
      · -- what is bound to a name has that name
        have hlookup := (Nest.lookup?_merged hw.apart name).trans hl
        obtain ⟨index, hbound⟩ := Scopes.binds_of_lookup? hlookup
        rw [← hw.merged] at hbound
        have hsurface := (hw.twins.alike.left.sound.named hbound (hw.get?_lowered hj)).1
        rw [show j.surface = name from hsurface]
        exact hnone

/-- A variable is declared under a name that the global frame does not bind. -/
theorem Valid.declare (hw : w.Valid) (type : String) {name : String}
    (hname : w.nest.globals.names.find? name = none) :
    coupling.Answers w Grows Given
      (w.nest.inside.declared ((Identifier.name name 0).asVariable type 0))
      (w.twins.right.declared ((Identifier.name name 0).asVariable type 0)) := by
  have htwins := hw.twins.declare (i := (Identifier.name name 0).asVariable type 0) rfl
  rw [hw.merged] at htwins
  have hraised : Nest.IsRaised w.nest.globals
      ((Identifier.name name 0).asVariable type w.nest.blocks.length) :=
    fun _ => ⟨hw.apart.length_pos, hname⟩
  have hfind : w.nest.merged.scopes.currentFrame.names.find? name =
    w.nest.inside.scopes.currentFrame.names.find? name := Nest.find?_currentFrame hw.apart hname
  refine hw.answers (K := fun n h => ∀ {i}, n.arena.get? h = some i → i.isUndefined = false) ?_
    htwins fun n t h k hK hP => ⟨hP, fun hi hundefined => ?_⟩
  · cases hf : w.nest.inside.scopes.currentFrame.names.find? name with
    | none =>
      rw [Store.declared_new hf, Store.declared_new (hfind.trans hf)]
      have hmerged := Nest.define_merged
        (i := (Identifier.name name 0).asVariable type w.nest.blocks.length) hw.apart hname
      have hinside := Nest.define_inside hw.apart
        ((Identifier.name name 0).asVariable type w.nest.blocks.length)
      change Answers w.nest _
        (.ok (w.nest.inside.define ((Identifier.name name 0).asVariable type w.nest.blocks.length)))
        (.ok (w.nest.merged.define
          ((Identifier.name name 0).asVariable type w.nest.blocks.length).lowered))
      rw [hmerged, hinside]
      refine ⟨rfl, _, rfl, rfl, Nest.evolves_defined hw.apart hw.live hraised hname, ?_⟩
      intro j hj
      obtain rfl := Arena.eq_of_get?_push hw.apart.tidy hj
      rfl
    | some h =>
      rw [Store.declared_bound hf, Store.declared_bound (hfind.trans hf)]
      have hmerged : w.nest.merged.arena.get? h = (w.nest.inside.arena.get? h).map .lowered :=
        w.nest.arena.get?_lowered h
      rw [hmerged]
      cases hold : w.nest.inside.arena.get? h with
      | none => rfl
      | some old =>
        have hlowered : old.lowered.isUndefined = old.isUndefined := rfl
        simp only [Option.map_some, hlowered]
        split
        · have hl : w.nest.arena.IsLive h := Arena.isLive_of_get? hold
          have hput := w.nest.put_merged h
            ((Identifier.name name 0).asVariable type w.nest.blocks.length)
          refine ⟨rfl, _, rfl, hput, Nest.evolves_overwritten hw.apart hw.live hl rfl hraised,
            fun {j} hj => ?_⟩
          obtain rfl := Arena.eq_of_get?_put hl hj
          rfl
        · rfl
  · rw [hK hi] at hundefined
    contradiction

theorem Valid.setValue (hw : w.Valid) (hh : w.Given h k) (hi : w.nest.arena.get? h = some i)
    (hvariable : i.isVariable = true) (value : Value) :
    coupling.Answers w Grows (fun _ _ _ => True) (w.nest.inside.assigned h value)
      (w.twins.right.assigned k value) := by
  have hlowered := hw.get?_lowered hi
  have htwins := hw.twins.setValue hh.fits hlowered hvariable value
  rw [hw.merged] at htwins hlowered
  refine hw.answers (K := fun _ _ => True) ?_ htwins fun _ _ _ _ _ _ => trivial
  have hold : w.nest.inside.arena.get? h = some i := hi
  simp only [Store.assigned, Arena.setValue?, hold, hlowered]
  have hrole : i.role = .var := by simpa [Identifier.isVariable] using hvariable
  have hput := w.nest.put_merged h { i with value }
  exact ⟨rfl, _, rfl, hput, Nest.evolves_overwritten hw.apart hw.live (Arena.isLive_of_get? hi)
    hrole fun _ => hw.apart.raised h i hi hvariable, trivial⟩

theorem Valid.pushTemporary (hw : w.Valid) (hi : i.IsLiteral) :
    coupling.Reaches w Grows Given (w.nest.inside.pushTemporary i).2
      (w.twins.right.pushTemporary i).2 (w.nest.inside.pushTemporary i).1
      (w.twins.right.pushTemporary i).1 := by
  have htwins := hw.twins.pushTemporary hi
  rw [hw.merged, Nest.pushTemporary_merged hw.apart (Identifier.IsWritten.literal hi).scope]
    at htwins
  rw [Nest.pushTemporary_inside hw.apart]
  have hraised : Nest.IsRaised w.nest.globals i := fun hvariable => by
    simp [Identifier.isVariable, hi.role] at hvariable
  refine hw.reaches (Nest.evolves_adopted hw.apart hw.live hraised) rfl htwins
    fun t ht => ⟨ht, fun {j} hj hundefined => ?_⟩
  obtain rfl := Arena.eq_of_get?_push hw.apart.tidy hj
  simp [Identifier.isUndefined, hi.role] at hundefined

/-- Both stores read a text. -/
theorem Valid.readText (hw : w.Valid) {text : String} (htext : coupling.Reads text) :
    coupling.Reaches w Grows
      (fun w r r' => (∃ e, r = .error e ∧ r' = .error e) ∨
        ∃ s s', r = .ok s ∧ r' = .ok s' ∧ s.Alike (w.twins.Lasts .pointless) s')
      ⟨(Statement.ofText text w.nest.arena).2, w.nest.inside.scopes⟩
      ⟨(Statement.ofText text w.twins.right.arena).2, w.twins.right.scopes⟩
      (Statement.ofText text w.nest.arena).1 (Statement.ofText text w.twins.right.arena).1 := by
  have hwritten : ∀ i ∈ Statement.written text, i.IsWritten :=
    fun _ => Statement.isWritten_of_mem_written
  have htwins := hw.twins.pushAll hwritten htext
  rw [hw.merged, Nest.pushAll_merged _ hwritten] at htwins
  rw [Statement.arena_ofText, Statement.arena_ofText]
  exact (hw.reaches (Q := fun w => List.Forall₂ (w.twins.Lasts .pointless))
    (Nest.evolves_supplied hw.apart hw.live hwritten) rfl htwins fun _ => id).imp
    (fun _ => id) fun _ => Statement.ofText_alike_of_pushed

/-! ## Blocks -/

/-- Both stores open a block. -/
theorem Valid.enter (hw : w.Valid) :
    ∃ inner : Merging, inner.nest = w.nest.entered ∧ inner.twins.right = w.twins.right.enter ∧
      inner.Valid ∧ w.twins.Runs .pointless inner.twins := by
  obtain ⟨hentered, hruns⟩ := hw.twins.enter
  refine ⟨⟨w.nest.entered, _⟩, rfl, rfl, ⟨?_, hentered, ?_⟩, hruns⟩
  · change w.twins.left.enter = _
    rw [hw.merged, Nest.enter_merged hw.apart]
  · refine ⟨hw.apart.tidy, by simp [Nest.entered], fun f hf b hb => ?_, hw.apart.globals,
      hw.apart.raised⟩
    rcases List.mem_append.mp hf with hf | hf
    · exact hw.apart.names f hf b hb
    · rw [List.mem_singleton.mp hf] at hb
      cases hb

/-- Both stores leave a block that has been opened inside of the outermost one. -/
theorem Valid.leave (hw : w.Valid) (hdepth : 2 ≤ w.nest.blocks.length)
    {arrange arrange' : List Handle → List Handle} (harrange : ∀ hs, (arrange hs).Perm hs)
    (harrange' : ∀ hs, (arrange' hs).Perm hs) :
    (w.nest.inside.leave arrange).1 = .ok () ∧ (w.twins.right.leave arrange').1 = .ok () ∧
      ∃ outer : Merging, outer.nest = w.nest.left arrange ∧
        outer.twins.right = (w.twins.right.leave arrange').2 ∧ outer.Valid ∧
        w.twins.Runs .pointless outer.twins := by
  obtain ⟨hok, hok', t, hl, hr, ht, hruns, -⟩ := hw.twins.leave harrange harrange'
  rw [hw.merged, Nest.leave_merged hdepth] at hok hl
  rw [Nest.leave_inside hw.apart]
  have hdestroyed : w.nest.arena.Adds (fun _ => False) (w.nest.left arrange).arena :=
    Arena.adds_destroyAll hw.apart.tidy _
  refine ⟨hok, hok', ⟨w.nest.left arrange, t⟩, rfl, hr, ⟨hl, ht, ?_⟩, hruns⟩
  refine ⟨hw.apart.tidy.destroyAll _, ?_, ?_, ?_, ?_⟩
  · refine List.ne_nil_of_length_pos ?_
    rw [Nest.left, List.length_dropLast]
    omega
  · exact fun f hf => hw.apart.names f ((List.dropLast_sublist _).subset hf)
  · exact fun b hb i hi => hw.apart.globals b hb i ((hdestroyed _ _ hi).resolve_right id)
  · exact fun h i hi => hw.apart.raised h i ((hdestroyed _ _ hi).resolve_right id)

/-! ## The coupling -/

theorem lawful : coupling.Lawful where
  grows := ⟨fun w => ⟨.refl _, id, rfl, rfl⟩, fun h h' => ⟨h.twins.trans h'.twins,
    fun hh => h'.given (h.given hh), h'.globals.trans h.globals, h'.depth.trans h.depth⟩⟩
  runs := ⟨fun w => ⟨⟨id, .refl _⟩, rfl, rfl⟩,
    fun h h' => ⟨⟨fun hl => h'.twins.lasts (h.twins.lasts hl), h.twins.keeps.trans h'.twins.keeps⟩,
      h'.globals.trans h.globals, h'.depth.trans h.depth⟩⟩
  grows_runs := fun h => ⟨⟨h.twins.lasts, h.twins.keeps⟩, h.globals, h.depth⟩
  depth := fun h => ⟨h.depth, congrArg Place.depth h.twins.place'⟩
  fits_mono := fun h => h.twins.fits
  given_mono := fun h => h.given
  lasts_mono := fun h => h.twins.lasts
  given_fits := Given.fits
  lasts_fits := Twins.Lasts.fits
  identifier := by
    intro w h k hw hh
    obtain ⟨i, hi, hi', -⟩ := hw.get? hh
    refine ⟨i, i.scope - 1, hi, hi', fun hdefined => ⟨hh, fun hj hundefined => ?_⟩⟩
    obtain rfl := Option.some.inj (hi.symm.trans hj)
    rw [hdefined] at hundefined
    contradiction
  function := by
    intro w h k i hw hh hi hfunction
    obtain ⟨op, hop, hdump, -⟩ := hw.twins.function (fun hdump => hdump rfl) hh.fits
      (hw.get?_lowered hi) hfunction
    exact ⟨op, hop, hdump, fun _ => trivial⟩
  isVariableAt := by
    intro w h k i j hw hh hi hj
    obtain ⟨i', hi', hj', -⟩ := hw.get? hh.fits
    obtain rfl := Option.some.inj (hi.symm.trans hi')
    obtain rfl := Option.some.inj (hj'.symm.trans hj)
    have hdepth : w.twins.right.depth = w.nest.blocks.length - 1 := by
      rw [← hw.twins.alike.depth, hw.merged]
      rfl
    have hpos := hw.apart.length_pos
    rw [hdepth]
    -- a variable is below the global frame, so that it is one level up in the other store
    unfold Evaluation.isVariableAt
    cases hvariable : i.isVariable with
    | false => simp [show i.lowered.isVariable = i.isVariable from rfl, hvariable]
    | true =>
      have hscope := (hw.apart.raised h i hi hvariable).1
      have hiff : i.scope = w.nest.blocks.length ↔ i.scope - 1 = w.nest.blocks.length - 1 := by
        omega
      simp only [show i.lowered.isVariable = i.isVariable from rfl, hvariable, Bool.true_and,
        decide_eq_decide]
      exact hiff
  resolve := by
    intro w h k i hw hh hi hundefined
    obtain ⟨i', hi', -, hdiscreet⟩ := hw.get? hh
    obtain rfl := Option.some.inj (hi.symm.trans hi')
    exact hw.resolve (hdiscreet.undefined hundefined)
  push := Valid.pushTemporary
  declare := by
    intro w h k i hw hh hi hname type
    refine hw.declare type ?_
    rcases Bool.or_eq_true_iff.mp hname with hundefined | hvariable
    · exact hh.free hi hundefined
    · exact (hw.apart.raised h i hi hvariable).2
  setValue := Valid.setValue
  block := by
    intro w hw
    obtain ⟨inner, hnest, hright, hinner, hentered⟩ := hw.enter
    have hglobals : inner.nest.globals = w.nest.globals := by rw [hnest]; rfl
    have hinnerDepth : inner.nest.blocks.length = w.nest.blocks.length + 1 := by
      rw [hnest]
      simp [Nest.entered]
    refine ⟨inner, ?_, hright, hinner, fun _ _ => hentered.lasts, fun after hafter hruns => ?_⟩
    · show inner.nest.inside = w.nest.inside.enter
      rw [hnest, Nest.enter_inside]
    intro arrange arrange' harrange harrange'
    have hdepth : after.nest.blocks.length = w.nest.blocks.length + 1 :=
      hruns.depth.trans hinnerDepth
    have hpos := hw.apart.length_pos
    obtain ⟨hok, hok', outer, houter, hr, hvalid, hleft⟩ :=
      hafter.leave (by omega) harrange harrange'
    refine ⟨hok, hok', outer, ?_, hr, hvalid, ⟨fun hl => ?_, ?_⟩, ?_, ?_⟩
    · show outer.nest.inside = (after.nest.inside.leave arrange).2
      rw [houter, Nest.leave_inside hafter.apart]
    · exact hleft.lasts (hruns.twins.lasts (hentered.lasts hl))
    · exact (hentered.keeps.trans hruns.twins.keeps).trans hleft.keeps
    · rw [houter]
      exact hruns.globals.trans hglobals
    · rw [houter, Nest.left, List.length_dropLast, hdepth, Nat.add_sub_cancel]
  readText := fun hw htext => hw.readText htext

/-- The outermost block is left without an error as well. -/
theorem Valid.leaves_outermost (hw : w.Valid) (hdepth : w.nest.blocks.length = 1)
    {arrange : List Handle → List Handle} (harrange : ∀ hs, (arrange hs).Perm hs) :
    w.nest.leaves arrange = .ok () := by
  obtain ⟨f, hf⟩ := List.length_eq_one_iff.mp hdepth
  have hinnermost : w.nest.innermost = f := by simp [Nest.innermost, hf]
  -- what the block holds is held by the frame that it is merged into
  have hheld : w.nest.merged.scopes.held = (w.nest.globals.join f).handles := by
    simp [Nest.merged, Scopes.held, hf, Frame.joined]
  have hsub : f.handles.Sublist (w.nest.globals.join f).handles := by
    simp only [Frame.handles, Frame.join, Bindings.values, List.map_append, List.reverse_append]
    exact (List.sublist_append_right _ _).append (List.sublist_append_right _ _)
  have hsound := hw.twins.alike.left.sound
  rw [hw.merged] at hsound
  have hnodup := hsound.nodup
  rw [hheld] at hnodup
  have hlive : ∀ h ∈ arrange f.handles, w.nest.arena.IsLive h := by
    intro h hh
    have hmem : h ∈ w.nest.merged.scopes.held := by
      rw [hheld]
      exact hsub.subset ((harrange _).mem_iff.mp hh)
    rw [← hw.merged] at hmem
    have hlive := hw.twins.alike.isLive_of_mem_held hmem
    rw [hw.merged] at hlive
    exact Arena.isLive_lowered.mp hlive
  have hdestroyed := Arena.destroyAll_of_isLive hw.apart.tidy
    ((harrange _).nodup_iff.mpr (hnodup.sublist hsub)) hlive
  simp only [Nest.leaves, hinnermost, hdestroyed.1]

end Merging

/-! ## Before the first program -/

namespace Store

/-- Before the first program there is one frame, at which execution is. -/
theorem exists_scopes_initial : ∃ f, initial.scopes = ⟨[("", [f])], .top ""⟩ := by
  refine initial_induction (P := fun s => ∃ f, s.scopes = ⟨[("", [f])], .top ""⟩) ⟨.empty, rfl⟩ ?_
  rintro s i - - - ⟨f, hs⟩
  change ∃ f, s.scopes.bind i.surface (s.arena.push i).1 = _
  rw [Scopes.bind, hs]
  exact ⟨_, Nest.modifyFrame_only Nat.zero_lt_one _⟩

theorem lowered_initial : initial.arena.lowered = initial.arena := by
  refine initial_induction (P := fun s => s.arena.lowered = s.arena) ?_ ?_
  · simp [empty, Arena.empty, Arena.lowered, Identifier.lowered_of_scope, Identifier.invalid]
  · intro s i hi _ _ hs
    have hpush := s.arena.push_lowered i
    rw [hs, Identifier.lowered_of_scope (scope_of_mem_vocabulary hi)] at hpush
    exact (congrArg Prod.snd hpush).symm

theorem isLive_initial {h : Handle} (hh : h ∈ initial.scopes.held) : initial.arena.IsLive h :=
  full_initial h (sound_initial.inUse h hh)

end Store

/-- The nest in which a program is run in a block before any other one: the block is open, and what
the program writes has been added. -/
def Nest.start (a : Arena) (globals : Frame) (is : List Identifier) : Nest :=
  Nest.supplied ⟨a, globals, [.empty]⟩ is

section Start

variable {s : Store} {f : Frame} {is : List Identifier}

theorem Nest.inside_start (hf : s.scopes = ⟨[("", [f])], .top ""⟩) :
    (start s.arena f is).inside = Store.enter ⟨(s.arena.pushAll is).2, s.scopes⟩ := by
  rw [hf]
  rfl

theorem Nest.merged_start (hf : s.scopes = ⟨[("", [f])], .top ""⟩)
    (hlowered : s.arena.lowered = s.arena) (his : ∀ i ∈ is, i.IsWritten) :
    (start s.arena f is).merged = ⟨(s.arena.pushAll is).2, s.scopes⟩ := by
  have harena : (s.arena.pushAll is).2.lowered = (s.arena.pushAll is).2 := by
    have hpush := s.arena.pushAll_lowered fun i hi => (his i hi).scope
    rw [hlowered] at hpush
    exact (congrArg Prod.snd hpush).symm
  have hframe : f.join .empty = f := by simp [Frame.join, Frame.empty]
  rw [hf]
  simp only [start, supplied, merged, harena, Frame.joined, hframe]
  rfl

theorem Nest.apart_start (hf : s.scopes = ⟨[("", [f])], .top ""⟩) (hs : s.Sound)
    (hlive : ∀ h ∈ s.scopes.held, s.arena.IsLive h)
    (hfixed : s.arena.All fun i => i.isUndefined = false ∧ i.isVariable = false)
    (his : ∀ i ∈ is, i.IsWritten) : (start s.arena f is).Apart := by
  have hglobals : ∀ b ∈ f.names, s.arena.IsLive b.2 := by
    intro b hb
    refine hlive b.2 ?_
    rw [hf]
    simpa [Scopes.held] using Frame.mem_handles.mpr (.inl ⟨b.1, hb⟩)
  have hbase : Apart ⟨s.arena, f, [.empty]⟩ := by
    refine ⟨hs.tidy, by simp, ?_, fun b _ i hi => (hfixed _ i hi).1, ?_⟩
    · simp [Frame.empty]
    · intro h i hi hvariable
      rw [(hfixed h i hi).2] at hvariable
      contradiction
  exact (evolves_supplied hbase hglobals his).apart

end Start

namespace Merging

/-- Before the first program is run, the store with the block belongs together with itself. -/
theorem exists_start {text : String} (htext : coupling.Reads text) {s : Statement}
    (hs : (Statement.ofText text Store.initial.arena).1 = .ok s) :
    ∃ w : Merging, w.Valid ∧ w.nest.blocks.length = 1 ∧
      w.nest.inside =
        Store.enter ⟨(Statement.ofText text Store.initial.arena).2, Store.initial.scopes⟩ ∧
      w.twins.right = ⟨(Statement.ofText text Store.initial.arena).2, Store.initial.scopes⟩ ∧
      s.Alike (w.twins.Lasts .pointless) s := by
  obtain ⟨f, hf⟩ := Store.exists_scopes_initial
  have hwritten : ∀ i ∈ Statement.written text, i.IsWritten :=
    fun _ => Statement.isWritten_of_mem_written
  have hordinary : Store.initial.arena.All (Identifier.IsOrdinary .pointless) := by
    refine Store.all_initial fun i hi hfunction => ?_
    obtain ⟨op, hop, hdump, -⟩ := Identifier.builtin_of_mem_vocabulary hi hfunction
    exact ⟨op, hop, fun hword heq => hword.1 (hdump heq)⟩
  have hfresh := Twins.valid_ofStore Store.sound_initial (fun _ => Store.isLive_initial) hordinary
  obtain ⟨t, hl, hr, ht, -, hresult⟩ := hfresh.readText htext
  have hapart := Nest.apart_start hf Store.sound_initial (fun _ => Store.isLive_initial)
    (Store.all_initial (by decide)) hwritten
  refine ⟨⟨.start Store.initial.arena f (Statement.written text), t⟩, ⟨?_, ht, hapart⟩, ?_, ?_,
    hr, ?_⟩
  · rw [Nest.merged_start hf Store.lowered_initial hwritten, ← Statement.arena_ofText]
    exact hl
  · rfl
  · rw [Statement.arena_ofText]
    exact Nest.inside_start hf
  · rcases hresult with ⟨e, he, -⟩ | ⟨s₁, s₂, h₁, h₂, halike⟩
    · cases hs.symm.trans he
    · obtain rfl := Except.ok.inj (hs.symm.trans h₁)
      obtain rfl := Except.ok.inj (hs.symm.trans h₂)
      exact halike

end Merging

/-! ## Programs and sessions -/

namespace Merging

open Evaluation

variable {host host' : Host} {text : String} {s : Statement}

/-- In a block of its own, a program that has been read ends as it does in the global frame. -/
theorem agrees_inFrame (hhosts : Twins.NoModules host host') (htext : coupling.Reads text)
    (hs : (Statement.ofText text Store.initial.arena).1 = .ok s) (steps : Nat) {m : Machine}
    (hm : m.store = ⟨(Statement.ofText text Store.initial.arena).2, Store.initial.scopes⟩) :
    (inFrame host (runAll (perform host steps) s.body none) m).Agrees
      Machine.SameSink (runAll (perform host' steps) s.body none m) := by
  obtain ⟨w, hw, hdepth, hl, hr, halike⟩ := exists_start htext hs
  have hself := lawful.agree_perform (fun _ => hhosts) steps
  have hends := lawful.simulates_runAll hself none hw halike.body
    { m with store := m.store.enter } m (by rw [hm]; exact hl.symm) (hm.trans hr.symm) rfl
  simp only [inFrame]
  cases hx : runAll (perform host steps) s.body none { m with store := m.store.enter } <;>
    cases hy : runAll (perform host' steps) s.body none m <;> rw [hx, hy] at hends <;>
    first | exact hends.elim | skip
  · next m₁ _ _ =>
    obtain ⟨hsink, after, hafterl, -, hafter, hruns, -⟩ := hends
    have hok : (m₁.store.leave (host.arrange m₁.blocksLeft)).1 = .ok () := by
      rw [← hafterl]
      change (after.nest.inside.leave _).1 = _
      rw [Nest.leave_inside hafter.apart]
      exact hafter.leaves_outermost (hruns.depth.trans hdepth) (host.arrange_perm _)
    simp only [hok]
    exact ⟨rfl, hsink⟩
  · exact ⟨hends.1, hends.2.1⟩
  · trivial

/-- With steps enough to come to the statements of the program, both ways of running it end
alike. -/
theorem agrees_text (hhosts : Twins.NoModules host host') (htext : coupling.Reads text)
    (sink : Sink) (steps : Nat) :
    (perform host (steps + 4) (.runText text) (.initial sink)).Agrees Machine.SameSink
      (perform host' (steps + 2) (.runTextTopLevel text) (.initial sink)) := by
  change (withText text (fun s => perform host (steps + 3) (.run s)) _).Agrees _
    (withText text (fun s => perform host' (steps + 1) (.runTopLevel s)) _)
  have hstore := Machine.store_initial sink
  cases hs : (Statement.ofText text (Machine.initial sink).store.arena).1 with
  | error e =>
    rw [withText_of_error hs, withText_of_error hs]
    exact ⟨rfl, rfl⟩
  | ok s =>
    rw [withText_of_ok hs, withText_of_ok hs]
    have hhead := Statement.head_of_ofText hs
    refine Outcome.Agrees.bind_pure ?_ _
    rw [perform_runTopLevel_of_head hhead]
    by_cases hbody : s.body = []
    · rw [perform_run_of_empty hhead hbody, hbody]
      exact ⟨rfl, rfl⟩
    · rw [perform_run_of_body hhead hbody]
      rw [hstore] at hs
      refine agrees_inFrame hhosts htext hs steps ?_
      rw [afterReading, hstore]

end Merging

/-- A program ends as it does in a session. A new interpreter runs the text in a block of its own,
and another one in the global frame, where no modules can be opened; the text mentions no dump, and
no word of it starts with a point. Both go on forever, or both end with the same result or the same
error, and then they have written the same; so they do for a sink that refuses what exceeds a limit,
which shows what is written when both go on forever. -/
theorem program_agrees_with_session {host host' : Host} (hhosts : Twins.NoModules host host')
    (sink : Sink) {text : String}
    (htext : ∀ i ∈ Statement.written text, i.isUndefined = true →
      i.surface ≠ "dump" ∧ i.surface.toList.head? ≠ some '.') :
    (Diverges host (.runText text) (.initial sink) ↔
      Diverges host' (.runTextTopLevel text) (.initial sink)) ∧
    ∀ steps steps', perform host steps (.runText text) (.initial sink) ≠ .cutOff →
      perform host' steps' (.runTextTopLevel text) (.initial sink) ≠ .cutOff →
      (perform host steps (.runText text) (.initial sink)).Agrees Machine.SameSink
        (perform host' steps' (.runTextTopLevel text) (.initial sink)) := by
  have hagrees := Merging.agrees_text hhosts htext sink
  refine ⟨⟨fun hdiverges steps => ?_, fun hdiverges steps => ?_⟩,
    fun steps steps' hends hends' => ?_⟩
  · by_contra hends
    have hmore := Evaluation.completes_perform host' (Nat.le_add_right steps 2) _ _ hends
    rw [(hagrees steps).cutOff_iff.mp (hdiverges _)] at hmore
    exact hends hmore.symm
  · by_contra hends
    have hmore := Evaluation.completes_perform host (Nat.le_add_right steps 4) _ _ hends
    rw [(hagrees steps).cutOff_iff.mpr (hdiverges _)] at hmore
    exact hends hmore.symm
  · have hsame := hagrees (max steps steps')
    rwa [Evaluation.completes_perform host
        (Nat.le_add_right_of_le (Nat.le_max_left _ _)) _ _ hends,
      Evaluation.completes_perform host'
        (Nat.le_add_right_of_le (Nat.le_max_right _ _)) _ _ hends'] at hsame

/-- A variable is hidden by another one in a block, and then declared again where it has been
declared before. -/
theorem program_agrees_with_session_redeclared :
    ∃ text, (∀ i ∈ Statement.written text, i.isUndefined = true →
        i.surface ≠ "dump" ∧ i.surface.toList.head? ≠ some '.') ∧
      ((Machine.initial {}).attempt (perform (Extension.Registry.host []) 30 (.runText text))).1 =
        some (.failed (.redefinition "x")) ∧
      (Diverges (Extension.Registry.host []) (.runText text) (.initial {}) ↔
        Diverges (Extension.Registry.host []) (.runTextTopLevel text) (.initial {})) ∧
      ∀ steps steps',
        perform (Extension.Registry.host []) steps (.runText text) (.initial {}) ≠ .cutOff →
        perform (Extension.Registry.host []) steps' (.runTextTopLevel text) (.initial {}) ≠
          .cutOff →
        (perform (Extension.Registry.host []) steps (.runText text) (.initial {})).Agrees
          Machine.SameSink
          (perform (Extension.Registry.host []) steps' (.runTextTopLevel text) (.initial {})) := by
  have hhosts : Twins.NoModules (Extension.Registry.host []) (Extension.Registry.host []) :=
    fun _ => ⟨_, rfl, rfl⟩
  have htext : ∀ i ∈ Statement.written
      "x :: int\nif x == 0 \x7b\nx :: int\nprintln x\n\x7d\nx :: int\n", i.isUndefined = true →
        i.surface ≠ "dump" ∧ i.surface.toList.head? ≠ some '.' := by decide +kernel
  exact ⟨_, htext, by decide +kernel, program_agrees_with_session hhosts {} htext⟩

end WordScript
