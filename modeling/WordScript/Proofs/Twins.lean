import WordScript.Proofs.Coupling
import WordScript.Proofs.Renaming
import WordScript.Proofs.Written

/-!
# Twins

Two stores that go through the same evaluation, together with what is paired between them. Values of
an evaluation are handles that are paired; the leaves of a program are moreover loose, so that they
outlast the blocks that are left. Nothing that is referred to leads to the function that shows the
index of a handle, or to whatever else programs have to do without.
-/

namespace WordScript

/-! ## What programs may use -/

/-- The name is the word for dumping, or that of such a member in some namespace. -/
def NamesDump (name : String) : Prop :=
  name = "dump" ∨ ".dump".toList <:+ name.toList

instance (name : String) : Decidable (NamesDump name) :=
  inferInstanceAs (Decidable (_ ∨ _))

/-- No name that the text writes is one for dumping. -/
def Quiet (text : String) : Prop :=
  ∀ i ∈ Statement.written text, i.isUndefined = true → ¬ NamesDump i.surface

instance (text : String) : Decidable (Quiet text) :=
  inferInstanceAs (Decidable (∀ i ∈ _, _))

/-- The names and the built-in functions that programs may use. -/
structure Repertoire where
  Word : String → Prop
  Op : Builtin → Prop

namespace Identifier

variable {R : Repertoire} {i : Identifier}

/-- Functions are built in, and under a name that may be used is a function that may be used. -/
def IsOrdinary (R : Repertoire) (i : Identifier) : Prop :=
  i.isFunction = true →
    ∃ op, i.callable? = some (.builtin op) ∧ (R.Word i.surface → R.Op op)

/-- The identifier may be used: as a function, and as a name that is still to be looked up. -/
structure IsDiscreet (R : Repertoire) (i : Identifier) : Prop where
  function : i.isFunction = true → ∀ op, i.callable? = some (.builtin op) → R.Op op
  undefined : i.isUndefined = true → R.Word i.surface

theorem isOrdinary_of_role (hi : i.role ≠ .function) : i.IsOrdinary R := by
  intro hfunction
  simp only [isFunction, decide_eq_true_eq] at hfunction
  contradiction

theorem isDiscreet_of_role (hfunction : i.role ≠ .function) (hundefined : i.role ≠ .undefined) :
    i.IsDiscreet R where
  function := by simp [isFunction, hfunction]
  undefined := by simp [isUndefined, hundefined]

theorem isDiscreet_name {word : String} (hword : R.Word word) (scope : Nat) :
    (name word scope).IsDiscreet R where
  function := by simp [isFunction, name]
  undefined := fun _ => hword

/-- What has a name that may be used may be used. -/
theorem IsOrdinary.isDiscreet (hi : i.IsOrdinary R) (hname : R.Word i.surface) :
    i.IsDiscreet R where
  function := by
    intro hfunction op hop
    obtain ⟨op', hop', hallowed⟩ := hi hfunction
    rw [hop] at hop'
    cases hop'
    exact hallowed hname
  undefined := fun _ => hname

end Identifier

/-! ## Twins -/

/-- Two stores, what is paired between them, and the handles that each has given out by itself. -/
structure Twins where
  left : Store
  right : Store
  pairs : Pairs
  own : Handle → Prop
  own' : Handle → Prop

namespace Twins

variable {R : Repertoire} {t t' : Twins} {h k : Handle} {i : Identifier}

/-- The twins with other stores and pairs. -/
def become (t : Twins) (s s' : Store) (ρ : Pairs) : Twins :=
  { t with left := s, right := s', pairs := ρ }

/-- The stores are alike. -/
structure Valid (R : Repertoire) (t : Twins) : Prop where
  alike : t.left.Alike t.own t.own' t.pairs t.right
  ordinary : t.left.arena.All (Identifier.IsOrdinary R)

/-- The handles may be values in an evaluation. -/
structure Fits (R : Repertoire) (t : Twins) (h k : Handle) : Prop where
  paired : t.pairs h k
  discreet : ∀ {i}, t.left.arena.get? h = some i → i.IsDiscreet R

/-- The handles may stand at a leaf of a program that is still to be run. -/
structure Lasts (R : Repertoire) (t : Twins) (h k : Handle) : Prop where
  fits : t.Fits R h k
  loose : t.left.Loose h

/-- What each of the stores has given out by itself stays that, and the left store still has it. -/
structure Keeps (t t' : Twins) : Prop where
  own : t'.own = t.own
  own' : t'.own' = t.own'
  kept : ∀ {h}, t.own h → t'.left.arena.get? h = t.left.arena.get? h

/-- What evaluating may do: values stay values, leaves of programs stay so, and execution stays in
the same place. -/
structure Grows (R : Repertoire) (t t' : Twins) : Prop where
  fits : ∀ {h k}, t.Fits R h k → t'.Fits R h k
  store : t.left.Grows t'.left
  keeps : t.Keeps t'
  place : t'.left.scopes.place = t.left.scopes.place
  place' : t'.right.scopes.place = t.right.scopes.place

/-- What running blocks may do: leaves of programs stay so. -/
structure Runs (R : Repertoire) (t t' : Twins) : Prop where
  lasts : ∀ {h k}, t.Lasts R h k → t'.Lasts R h k
  keeps : t.Keeps t'

theorem Keeps.refl (t : Twins) : t.Keeps t := ⟨rfl, rfl, fun _ => rfl⟩

theorem Keeps.trans {t'' : Twins} (h : t.Keeps t') (h' : t'.Keeps t'') : t.Keeps t'' :=
  ⟨h'.own.trans h.own, h'.own'.trans h.own', fun {_} hown =>
    (h'.kept (h.own ▸ hown)).trans (h.kept hown)⟩

theorem Grows.refl (t : Twins) : t.Grows R t := ⟨id, .refl _, .refl t, rfl, rfl⟩

theorem Grows.trans {t'' : Twins} (h : t.Grows R t') (h' : t'.Grows R t'') : t.Grows R t'' :=
  ⟨fun hf => h'.fits (h.fits hf), h.store.trans h'.store, h.keeps.trans h'.keeps,
    h'.place.trans h.place, h'.place'.trans h.place'⟩

theorem Grows.lasts (h : t.Grows R t') {k k' : Handle} (hl : t.Lasts R k k') : t'.Lasts R k k' :=
  ⟨h.fits hl.fits, h.store.loose hl.loose⟩

/-- The stores of twins belong together, and paired handles stand for each other. -/
abbrev coupling (R : Repertoire) : Coupling where
  World := Twins
  left := Twins.left
  right := Twins.right
  Valid := Valid R
  Fits := Fits R
  Given := Fits R
  Lasts := Lasts R
  Grows := Grows R
  Runs := Runs R
  Loads := R.Op .loadModule
  Reads := fun text => ∀ i ∈ Statement.written text, i.isUndefined = true → R.Word i.surface

/-- Behind paired handles is the same identifier. -/
theorem Valid.get? (ht : t.Valid R) (hh : t.Fits R h k) :
    ∃ i, t.left.arena.get? h = some i ∧ t.right.arena.get? k = some i ∧ i.IsDiscreet R ∧
      i.IsOrdinary R := by
  obtain ⟨i, hi⟩ := Arena.isLive_iff.mp (ht.alike.left.isLive hh.paired)
  refine ⟨i, hi, ?_, hh.discreet hi, ht.ordinary h i hi⟩
  rw [← ht.alike.same hh.paired]
  exact hi

/-- A function that is a value is a built-in one that may be used. -/
theorem Valid.function (ht : t.Valid R) (hdump : ¬ R.Op .dump) (hh : t.Fits R h k)
    (hi : t.left.arena.get? h = some i) (hfunction : i.isFunction = true) :
    ∃ op, i.callable? = some (.builtin op) ∧ op ≠ .dump ∧
      (op = .loadModule → R.Op .loadModule) := by
  obtain ⟨op, hop, -⟩ := ht.ordinary h i hi hfunction
  have hallowed := (hh.discreet hi).function hfunction op hop
  refine ⟨op, hop, fun heq => hdump (heq ▸ hallowed), fun heq => ?_⟩
  rwa [heq] at hallowed

/-! ## Adding and overwriting -/

/-- Both stores add an identifier at the same place. -/
theorem Valid.add (ht : t.Valid R) (hvalid : i.IsValid) (hordinary : i.IsOrdinary R)
    (hdiscreet : i.IsDiscreet R) {scopes scopes' : Scopes}
    (hscopes : scopes.Alike (t.pairs.add (t.left.arena.push i).1 (t.right.arena.push i).1) scopes')
    (hsound : Store.Sound ⟨(t.left.arena.push i).2, scopes⟩)
    (hsound' : Store.Sound ⟨(t.right.arena.push i).2, scopes'⟩)
    (hgrows : t.left.Grows ⟨(t.left.arena.push i).2, scopes⟩)
    (hplace : scopes.place = t.left.scopes.place) :
    (coupling R).Reaches t (Grows R) (Fits R) ⟨(t.left.arena.push i).2, scopes⟩
      ⟨(t.right.arena.push i).2, scopes'⟩ (t.left.arena.push i).1 (t.right.arena.push i).1 := by
  have htidy := ht.alike.left.sound.tidy
  have hplace' : scopes'.place = t.right.scopes.place := by
    rw [← hscopes.place, hplace, ht.alike.scopes.place]
  have hkept : ∀ {h}, t.left.arena.IsLive h →
      (t.left.arena.push i).2.get? h = t.left.arena.get? h :=
    Arena.get?_push_of_isLive htidy i
  refine ⟨t.become ⟨(t.left.arena.push i).2, scopes⟩ ⟨(t.right.arena.push i).2, scopes'⟩
      (t.pairs.add (t.left.arena.push i).1 (t.right.arena.push i).1), rfl, rfl,
    ⟨ht.alike.add hvalid hscopes hsound hsound', ht.ordinary.push htidy hordinary⟩,
    ⟨?_, hgrows, ⟨rfl, rfl, fun hown => hkept (ht.alike.left.own hown)⟩, hplace, hplace'⟩,
    ⟨.inr ⟨rfl, rfl⟩, ?_⟩⟩
  · intro h k hh
    refine ⟨.inl hh.paired, fun {j} hj => hh.discreet ?_⟩
    rwa [← hkept (ht.alike.left.isLive hh.paired)]
  · intro j hj
    change (t.left.arena.push i).2.get? _ = some j at hj
    rw [Arena.get?_push_self htidy hvalid] at hj
    cases hj
    exact hdiscreet

theorem Valid.pushTemporary (ht : t.Valid R) (hi : i.IsLiteral) :
    (coupling R).Reaches t (Grows R) (Fits R) (t.left.pushTemporary i).2
      (t.right.pushTemporary i).2 (t.left.pushTemporary i).1 (t.right.pushTemporary i).1 := by
  have hscopes : t.left.scopes.Alike
      (t.pairs.add (t.left.arena.push i).1 (t.right.arena.push i).1) t.right.scopes :=
    ht.alike.scopes.imp fun _ _ => .inl
  refine ht.add hi.isValid (Identifier.isOrdinary_of_role (by simp [hi.role]))
    (Identifier.isDiscreet_of_role (by simp [hi.role]) (by simp [hi.role])) ?_ ?_ ?_ ?_ rfl
  · exact hscopes.adopt (.inr ⟨rfl, rfl⟩)
  · exact ht.alike.left.sound.pushTemporary i
  · exact ht.alike.right.sound.pushTemporary i
  · exact Store.grows_hold ht.alike.left.sound (Frame.handles_adopt _ _)

/-- Both stores bind a new identifier in a frame that does not bind its name yet. -/
theorem Valid.bindNew (ht : t.Valid R) (hvalid : i.IsValid) (hordinary : i.IsOrdinary R)
    (hdiscreet : i.IsDiscreet R) {space : String} {index : Nat} (hscope : i.scope = index)
    (hname : (t.left.scopes.frameAt space index).names.find? i.surface = none) :
    (coupling R).Reaches t (Grows R) (Fits R)
      ⟨(t.left.arena.push i).2, t.left.scopes.modifyFrame space index fun f =>
        { f with names := f.names.insert i.surface (t.left.arena.push i).1 }⟩
      ⟨(t.right.arena.push i).2, t.right.scopes.modifyFrame space index fun f =>
        { f with names := f.names.insert i.surface (t.right.arena.push i).1 }⟩
      (t.left.arena.push i).1 (t.right.arena.push i).1 := by
  have hname' : (t.right.scopes.frameAt space index).names.find? i.surface = none := by
    have hfind := (ht.alike.scopes.frameAt space index).names.find? i.surface
    rcases optionRel_cases hfind with ⟨-, hnone⟩ | ⟨_, _, hsome, -, -⟩
    · exact hnone
    · rw [hname] at hsome
      contradiction
  have hscopes : t.left.scopes.Alike
      (t.pairs.add (t.left.arena.push i).1 (t.right.arena.push i).1) t.right.scopes :=
    ht.alike.scopes.imp fun _ _ => .inl
  refine ht.add hvalid hordinary hdiscreet ?_ ?_ ?_ ?_ rfl
  · exact hscopes.bindIn space index i.surface (.inr ⟨rfl, rfl⟩)
  · exact ht.alike.left.sound.bindNew hname hscope
  · exact ht.alike.right.sound.bindNew hname' hscope
  · exact Store.grows_bindNew ht.alike.left.sound hname

theorem Valid.define (ht : t.Valid R) (hvalid : i.IsValid) (hordinary : i.IsOrdinary R)
    (hdiscreet : i.IsDiscreet R) (hscope : i.scope = t.left.depth)
    (hname : t.left.scopes.currentFrame.names.find? i.surface = none) :
    (coupling R).Reaches t (Grows R) (Fits R) (t.left.define i).2 (t.right.define i).2
      (t.left.define i).1 (t.right.define i).1 := by
  have hbound := ht.bindNew hvalid hordinary hdiscreet hscope hname
  simp only [Store.define, Store.push, Scopes.bind, ← ht.alike.scopes.place]
  exact hbound

/-- Both stores overwrite the same identifier with another one of the same name and depth. -/
theorem Valid.put (ht : t.Valid R) (hk : t.pairs h k) {old : Identifier}
    (hold : t.left.arena.get? h = some old) (hsurface : i.surface = old.surface)
    (hscope : i.scope = old.scope) (hvalid : i.IsValid) (hordinary : i.IsOrdinary R)
    (hdiscreet : i.IsDiscreet R) :
    (coupling R).Reaches t (Grows R) (fun t (_ _ : Unit) => t.Fits R h k)
      { t.left with arena := t.left.arena.put h.index i }
      { t.right with arena := t.right.arena.put k.index i } () () := by
  have hsound := ht.alike.left.sound
  have hl := Arena.isLive_of_get? hold
  have hold' : t.right.arena.get? k = some old := by
    rw [← ht.alike.same hk]
    exact hold
  have discreet : ∀ {h' j}, h' = h ∨ (∀ {j}, t.left.arena.get? h' = some j → j.IsDiscreet R) →
      (t.left.arena.put h.index i).get? h' = some j → j.IsDiscreet R := by
    intro h' j hh hj
    by_cases heq : h' = h
    · rw [heq, Arena.get?_put_self hl hvalid] at hj
      cases hj
      exact hdiscreet
    · rw [Arena.get?_put_of_ne_handle hsound.tidy hl heq] at hj
      exact hh.resolve_left heq hj
  have hkept : ∀ {h'}, t.own h' →
      (t.left.arena.put h.index i).get? h' = t.left.arena.get? h' := by
    intro h' hown
    refine Arena.get?_put_of_ne_handle hsound.tidy hl ?_
    rintro rfl
    exact (ht.alike.left.paired.mp ⟨k, hk⟩).2 hown
  refine ⟨t.become { t.left with arena := t.left.arena.put h.index i }
      { t.right with arena := t.right.arena.put k.index i } t.pairs, rfl, rfl,
    ⟨?_, ht.ordinary.put hsound.tidy hl hordinary⟩,
    ⟨fun hh => ⟨hh.paired, discreet (.inr hh.discreet)⟩, Store.grows_put hsound hl hvalid,
      ⟨rfl, rfl, hkept⟩, rfl, rfl⟩, hk, discreet (.inl rfl)⟩
  exact ht.alike.put hk hvalid (hsound.put hold hsurface hscope)
    (ht.alike.right.sound.put hold' hsurface hscope)

/-! ## Names -/

/-- What nothing has been done to. -/
theorem Valid.stay (ht : t.Valid R) (hh : t.Fits R h k) :
    (coupling R).Reaches t (Grows R) (Fits R) t.left t.right h k :=
  ⟨t, rfl, rfl, ht, .refl t, hh⟩

/-- Handles that are bound in the same place to a name that may be used are values. -/
theorem Valid.fits_of_binds (ht : t.Valid R) {index : Nat} {name : String} (hk : t.pairs h k)
    (hbound : t.left.scopes.Binds index name h) (hname : R.Word name) : t.Fits R h k := by
  refine ⟨hk, fun {i} hi => (ht.ordinary h i hi).isDiscreet ?_⟩
  rw [(ht.alike.left.sound.named hbound hi).1]
  exact hname

/-- Both stores look a name without a namespace up. -/
theorem Valid.resolve_plain (ht : t.Valid R) {name : String} (hname : R.Word name)
    (hq : qualified? name = none) :
    (coupling R).Answers t (Grows R) (Fits R) (t.left.resolve name) (t.right.resolve name) := by
  have hscopes := ht.alike.scopes
  unfold Store.resolve
  simp only [hq]
  rcases optionRel_cases (hscopes.lookup? name) with ⟨hl, hl'⟩ | ⟨h, k, hl, hl', hk⟩ <;>
    simp only [hl, hl']
  · rw [← ht.alike.depth]
    refine ht.define (by simp [Identifier.IsValid, Identifier.name])
      (Identifier.isOrdinary_of_role (by simp [Identifier.name]))
      (Identifier.isDiscreet_name hname _) rfl ?_
    exact Scopes.find?_currentFrame_of_lookup? ht.alike.left.sound.visible hl
  · obtain ⟨index, hbound⟩ := Scopes.binds_of_lookup? hl
    exact ht.stay (ht.fits_of_binds hk hbound hname)

theorem Valid.resolve (ht : t.Valid R) (hwords : ClosedUnderMembers R.Word) {name : String}
    (hname : R.Word name) :
    (coupling R).Answers t (Grows R) (Fits R) (t.left.resolve name) (t.right.resolve name) := by
  have hscopes := ht.alike.scopes
  cases hq : qualified? name with
  | none => exact ht.resolve_plain hname hq
  | some found =>
    obtain ⟨space, member⟩ := found
    have hmember := hwords name space member hname hq
    unfold Store.resolve
    simp only [hq]
    rcases optionRel_cases (hscopes.namespaces.find? space) with
      ⟨hf, hf'⟩ | ⟨fs, fs', hf, hf', -⟩ <;> simp only [hf, hf']
    · rfl
    rcases optionRel_cases (hscopes.global? space member) with
      ⟨hg, hg'⟩ | ⟨h, k, hg, hg', hk⟩ <;> simp only [hg, hg']
    · rw [Scopes.global?_eq] at hg
      exact ht.bindNew (i := .name member 0) (by simp [Identifier.IsValid, Identifier.name])
        (Identifier.isOrdinary_of_role (by simp [Identifier.name]))
        (Identifier.isDiscreet_name hmember _) rfl hg
    · rw [Scopes.global?_eq] at hg
      have hbound := Scopes.binds_of_frameAt (Bindings.mem_of_find? hg)
      exact ht.stay (ht.fits_of_binds hk hbound hmember)

/-- Both stores declare a variable: under a new handle, or in the place of a name that was only
mentioned so far. -/
theorem Valid.declare (ht : t.Valid R) (hi : i.role = .var) :
    (coupling R).Answers t (Grows R) (Fits R) (t.left.declared i) (t.right.declared i) := by
  have hvalid : Identifier.IsValid { i with scope := t.left.depth } := by
    simp [Identifier.IsValid, hi]
  have hordinary : Identifier.IsOrdinary R { i with scope := t.left.depth } :=
    Identifier.isOrdinary_of_role (by simp [hi])
  have hdiscreet : Identifier.IsDiscreet R { i with scope := t.left.depth } :=
    Identifier.isDiscreet_of_role (by simp [hi]) (by simp [hi])
  have hframe : Option.Rel t.pairs (t.left.scopes.currentFrame.names.find? i.surface)
      (t.right.scopes.currentFrame.names.find? i.surface) := by
    have hplace := ht.alike.scopes.frameAt t.left.scopes.place.name t.left.scopes.place.depth
    unfold Scopes.currentFrame
    rw [← ht.alike.scopes.place]
    exact hplace.names.find? i.surface
  unfold Store.declared Store.declare
  rcases optionRel_cases hframe with ⟨hf, hf'⟩ | ⟨h, k, hf, hf', hk⟩ <;>
    simp only [hf, hf', ← ht.alike.depth]
  · exact ht.define hvalid hordinary hdiscreet rfl hf
  · obtain ⟨old, hold⟩ := Arena.isLive_iff.mp (ht.alike.left.isLive hk)
    have hsame := ht.alike.same hk
    simp only [← hsame, hold]
    by_cases hundefined : old.isUndefined = true <;> simp only [hundefined, if_true]
    · have hbound : t.left.scopes.Binds t.left.depth i.surface h :=
        Scopes.binds_of_frameAt (Bindings.mem_of_find? hf)
      obtain ⟨hsurface, hscope⟩ := ht.alike.left.sound.named hbound hold
      obtain ⟨t', hl, hr, hafter, hgrows, hfits⟩ := ht.put (i := { i with scope := t.left.depth })
        hk hold hsurface.symm hscope.symm hvalid hordinary hdiscreet
      exact ⟨t', hl, hr, hafter, hgrows, hfits⟩
    · rfl

/-- Both stores assign to a variable. -/
theorem Valid.setValue (ht : t.Valid R) (hh : t.Fits R h k) (hi : t.left.arena.get? h = some i)
    (hvariable : i.isVariable = true) (value : Value) :
    (coupling R).Answers t (Grows R) (fun _ _ _ => True) (t.left.assigned h value)
      (t.right.assigned k value) := by
  have hrole : i.role = .var := by simpa [Identifier.isVariable] using hvariable
  have hsame := ht.alike.same hh.paired
  simp only [Store.assigned, Arena.setValue?, ← hsame, hi]
  obtain ⟨t', hl, hr, hvalid, hgrows, -⟩ := ht.put (i := { i with value }) hh.paired hi rfl rfl
    (by simp [Identifier.IsValid, hrole]) (Identifier.isOrdinary_of_role (by simp [hrole]))
    (Identifier.isDiscreet_of_role (by simp [hrole]) (by simp [hrole]))
  exact ⟨t', hl, hr, hvalid, hgrows, trivial⟩

/-! ## Blocks and texts -/

theorem Valid.enter (ht : t.Valid R) :
    (t.become t.left.enter t.right.enter t.pairs).Valid R ∧
      t.Runs R (t.become t.left.enter t.right.enter t.pairs) := by
  refine ⟨⟨ht.alike.enter, ht.ordinary⟩,
    fun hl => ⟨⟨hl.fits.paired, hl.fits.discreet⟩, ?_⟩, rfl, rfl, fun _ => rfl⟩
  exact ⟨hl.loose.1, fun hmem => hl.loose.2 ((Scopes.held_enter _).mem_iff.mp hmem)⟩

/-- Both stores leave a block without an error, each in an order of its own. -/
theorem Valid.leave (ht : t.Valid R) {arrange arrange' : List Handle → List Handle}
    (harrange : ∀ hs, (arrange hs).Perm hs) (harrange' : ∀ hs, (arrange' hs).Perm hs) :
    (t.left.leave arrange).1 = .ok () ∧ (t.right.leave arrange').1 = .ok () ∧
      (coupling R).Reaches t (Runs R) (fun _ _ _ => True) (t.left.leave arrange).2
        (t.right.leave arrange').2 () () := by
  obtain ⟨hok, hok', ρ, halike, hρ⟩ := ht.alike.leave harrange harrange'
  have hsound := ht.alike.left.sound
  refine ⟨hok, hok', t.become (t.left.leave arrange).2 (t.right.leave arrange').2 ρ, rfl, rfl,
    ⟨halike, Store.all_leave hsound ht.ordinary _⟩, ⟨?_, rfl, rfl, ?_⟩, trivial⟩
  · intro h k hl
    have hloose := Store.loose_leave hsound harrange hl.loose
    refine ⟨⟨(hρ h k).mpr ⟨hl.fits.paired, hloose.1⟩, fun {i} hi => hl.fits.discreet ?_⟩, hloose⟩
    exact Store.get?_of_leave hsound hi
  · intro h hown
    -- what is still there is what it was, and nothing that is not paired is destroyed
    obtain ⟨i, hi⟩ := Arena.isLive_iff.mp (halike.left.own hown)
    exact hi.trans (Store.get?_of_leave hsound hi).symm

/-- Both stores add identifiers that a text writes, none of which is a name that may not be used.
Their handles may stand at the leaves of programs. -/
theorem Valid.pushAll (ht : t.Valid R) {is : List Identifier} (his : ∀ i ∈ is, i.IsWritten)
    (hwords : ∀ i ∈ is, i.isUndefined = true → R.Word i.surface) :
    (coupling R).Reaches t (Grows R) (fun t => List.Forall₂ (Lasts R t))
      ⟨(t.left.arena.pushAll is).2, t.left.scopes⟩ ⟨(t.right.arena.pushAll is).2, t.right.scopes⟩
      (t.left.arena.pushAll is).1 (t.right.arena.pushAll is).1 := by
  have hsound := ht.alike.left.sound
  have hvalid : ∀ i ∈ is, i.IsValid := fun i hi => (his i hi).isValid
  have hrole : ∀ i ∈ is, i.role ≠ .function := by
    intro i hi
    rcases (his i hi).role with hrole | hrole <;> simp [hrole]
  have hdiscreet : ∀ i ∈ is, i.IsDiscreet R :=
    fun i hi => ⟨by simp [Identifier.isFunction, hrole i hi], hwords i hi⟩
  obtain ⟨ρ, halike, hpairs, hnew⟩ := ht.alike.pushAll hvalid
  obtain ⟨hgrows, hloose⟩ := Store.loose_pushAll hsound hvalid
  have hordinary := Store.all_pushAll hsound.tidy ht.ordinary fun i hi =>
    Identifier.isOrdinary_of_role (hrole i hi)
  have hkept : ∀ {h}, t.own h → (t.left.arena.pushAll is).2.get? h = t.left.arena.get? h :=
    fun hown => Arena.get?_pushAll_of_isLive hsound.tidy is (ht.alike.left.own hown)
  refine ⟨t.become _ _ ρ, rfl, rfl, ⟨halike, hordinary⟩,
    ⟨fun hh => ⟨hpairs _ _ hh.paired, fun hj => ?_⟩, hgrows, ⟨rfl, rfl, hkept⟩, rfl, rfl⟩, ?_⟩
  · rcases Arena.get?_pushAll hsound.tidy hj with hold | ⟨-, hwritten⟩
    · exact hh.discreet hold
    · exact hdiscreet _ hwritten
  · -- the handles are new, so what is behind them is what has been added
    refine forall₂_imp_of_mem (fun h hmem k hk => ⟨⟨hk, fun hj => ?_⟩, hloose h hmem⟩) hnew
    rcases Arena.get?_pushAll hsound.tidy hj with hold | ⟨-, hwritten⟩
    · exact absurd (hsound.tidy.inUse (Arena.isLive_of_get? hold))
        (Arena.not_inUse_pushAll hsound.tidy hmem)
    · exact hdiscreet _ hwritten

/-- Both stores read a text that writes no names but those that may be used: both refuse it, or read
it into statements whose leaves may be run. -/
theorem Valid.readText (ht : t.Valid R) {text : String} (htext : (coupling R).Reads text) :
    (coupling R).Reaches t (Grows R)
      (fun t r r' => (∃ e, r = .error e ∧ r' = .error e) ∨
        ∃ s s', r = .ok s ∧ r' = .ok s' ∧ s.Alike (t.Lasts R) s')
      ⟨(Statement.ofText text t.left.arena).2, t.left.scopes⟩
      ⟨(Statement.ofText text t.right.arena).2, t.right.scopes⟩
      (Statement.ofText text t.left.arena).1 (Statement.ofText text t.right.arena).1 := by
  obtain ⟨t', hl, hr, ht', hgrows, hnew⟩ :=
    ht.pushAll (fun _ => Statement.isWritten_of_mem_written) htext
  rw [Statement.arena_ofText, Statement.arena_ofText]
  exact ⟨t', hl, hr, ht', hgrows, Statement.ofText_alike_of_pushed hnew⟩

/-- A store as twins of its own, each handle paired with itself. -/
def ofStore (s : Store) : Twins where
  left := s
  right := s
  pairs := fun h k => h = k ∧ s.arena.IsLive h
  own := fun _ => False
  own' := fun _ => False

theorem valid_ofStore {s : Store} (hs : s.Sound) (hlive : ∀ h ∈ s.scopes.held, s.arena.IsLive h)
    (hordinary : s.arena.All (Identifier.IsOrdinary R)) : (ofStore s).Valid R :=
  ⟨Store.alike_self hs hlive, hordinary⟩

/-! ## The coupling -/

/-- Every program that keeps to names and functions it may use, none of which dumps, runs on twin
stores the same way. -/
theorem lawful (hwords : ClosedUnderMembers R.Word) (hdump : ¬ R.Op .dump) :
    (coupling R).Lawful where
  grows := ⟨.refl, .trans⟩
  runs := ⟨fun t => ⟨id, .refl t⟩,
    fun h h' => ⟨fun hl => h'.lasts (h.lasts hl), h.keeps.trans h'.keeps⟩⟩
  grows_runs := fun h => ⟨h.lasts, h.keeps⟩
  depth := fun h => ⟨congrArg Place.depth h.place, congrArg Place.depth h.place'⟩
  fits_mono := fun h => h.fits
  given_mono := fun h => h.fits
  lasts_mono := fun h => h.lasts
  given_fits := id
  lasts_fits := Lasts.fits
  identifier := fun ht hh => by
    obtain ⟨i, hi, hi', -, -⟩ := ht.get? hh
    exact ⟨i, i.scope, hi, hi', fun _ => hh⟩
  function := fun ht hh hi hfunction => ht.function hdump hh hi hfunction
  isVariableAt := by
    intro t h k i j ht hh hi hj
    obtain rfl : i = j := by
      rw [ht.alike.same hh.paired, hj] at hi
      exact (Option.some.inj hi).symm
    rw [ht.alike.depth]
  resolve := fun ht hh hi hundefined =>
    ht.resolve hwords ((hh.discreet hi).undefined hundefined)
  push := Valid.pushTemporary
  declare := fun ht _ _ _ type => ht.declare rfl
  setValue := Valid.setValue
  block := by
    intro t ht
    obtain ⟨hentered, hruns⟩ := ht.enter
    refine ⟨_, rfl, rfl, hentered, fun _ _ => hruns.lasts, fun after hafter hinner => ?_⟩
    intro arrange arrange' harrange harrange'
    obtain ⟨hok, hok', outer, hl, hr, houter, hleft, -⟩ := hafter.leave harrange harrange'
    refine ⟨hok, hok', outer, hl, hr, houter, fun hlasts => ?_, ?_⟩
    · exact hleft.lasts (hinner.lasts (hruns.lasts hlasts))
    · exact (hruns.keeps.trans hinner.keeps).trans hleft.keeps
  readText := fun ht htext => ht.readText htext

end Twins

end WordScript
