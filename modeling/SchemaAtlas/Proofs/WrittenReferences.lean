import SchemaAtlas.Proofs.Pointer

namespace SchemaAtlas

namespace Pointer

-- Escaping and unescaping as replacements in the whole text, one after the other.

def replaceChar (mark : Char) (new cs : List Char) : List Char := cs.flatMap fun c => if c = mark then new else [c]

def replacePair (first second new : Char) : List Char → List Char
  | c :: d :: rest =>
    if c = first ∧ d = second then new :: replacePair first second new rest
    else c :: replacePair first second new (d :: rest)
  | cs => cs

theorem escapeChars_eq_replace (cs : List Char) :
    escapeChars cs = replaceChar '/' ['~', '1'] (replaceChar '~' ['~', '0'] cs) := by
  induction cs using escapeChars.induct with
  | case1 => rfl
  | case2 rest ih => simp [escapeChars, ih, replaceChar]
  | case3 rest ih => simp [escapeChars, ih, replaceChar]
  | case4 c rest tilde slash ih =>
    have plain : c ≠ '~' := tilde
    have other : c ≠ '/' := slash
    rw [escapeChars, ih]
    · simp [replaceChar, plain, other]
    · exact tilde
    · exact slash

theorem replacePair_cons (plain : c ≠ first) (rest : List Char) :
    replacePair first second new (c :: rest) = c :: replacePair first second new rest := by
  cases rest with
  | nil => rfl
  | cons d rest => rw [replacePair, if_neg fun pair => plain pair.1]

theorem replacePair_lone (lone : rest.head? ≠ some second) :
    replacePair first second new (c :: rest) = c :: replacePair first second new rest := by
  cases rest with
  | nil => rfl
  | cons d rest => rw [replacePair, if_neg fun pair => lone (congrArg some pair.2)]

-- Replacing never puts a new character in front but the one that stands for a pair.
theorem head?_replacePair (other : d ≠ new) (headed : (replacePair first second new cs).head? = some d) :
    cs.head? = some d := by
  match cs with
  | [] => exact headed
  | [c] => exact headed
  | c :: c' :: rest =>
    rw [replacePair] at headed
    split at headed
    · exact absurd (Option.some.inj headed).symm other
    · exact headed

-- The slashes that come back open no further pair, so that one pass does what two do.
theorem unescapeChars_eq_replace (cs : List Char) :
    unescapeChars cs = replacePair '~' '0' '~' (replacePair '~' '1' '/' cs) := by
  induction cs using unescapeChars.induct with
  | case1 => rfl
  | case2 rest ih =>
    rw [unescapeChars, ih, replacePair, if_pos ⟨rfl, rfl⟩, replacePair_cons (by decide)]
  | case3 rest ih =>
    have first : replacePair '~' '1' '/' ('~' :: '0' :: rest) = '~' :: '0' :: replacePair '~' '1' '/' rest := by
      rw [replacePair, if_neg (by decide), replacePair_cons (c := '0') (by decide)]
    rw [unescapeChars, ih, first, replacePair, if_pos ⟨rfl, rfl⟩]
  | case4 c rest one zero ih =>
    rw [unescapeChars, ih]
    · by_cases tilde : c = '~'
      · have noOne : rest.head? ≠ some '1' := by
          intro headed
          obtain ⟨later, same⟩ := List.head?_eq_some_iff.mp headed
          exact one later tilde same
        have noZero : (replacePair '~' '1' '/' rest).head? ≠ some '0' := by
          intro headed
          obtain ⟨later, same⟩ := List.head?_eq_some_iff.mp (head?_replacePair (by decide) headed)
          exact zero later tilde same
        rw [replacePair_lone noOne, replacePair_lone noZero]
      · rw [replacePair_cons tilde, replacePair_cons tilde]
    · exact one
    · exact zero

-- The other way round, the tilde would make a slash of the digit behind it.
example : unescapeChars ['~', '0', '1'] = ['~', '1'] ∧
    replacePair '~' '1' '/' (replacePair '~' '0' '~' ['~', '0', '1']) = ['/'] := by decide

def Escaped (cs : List Char) : Prop :=
  ∀ front back, cs = front ++ '~' :: back → back.head? = some '0' ∨ back.head? = some '1'

theorem escaped_cons (plain : c ≠ '~') : Escaped (c :: rest) ↔ Escaped rest := by
  constructor
  · intro escaped front back same
    exact escaped (c :: front) back (by rw [same]; rfl)
  · intro escaped front back same
    cases front with
    | nil => exact absurd (List.cons.inj same).1 plain
    | cons d front => exact escaped front back (List.cons.inj same).2

theorem escaped_pair (digit : d = '0' ∨ d = '1') : Escaped ('~' :: d :: rest) ↔ Escaped rest := by
  have plain : d ≠ '~' := by rcases digit with rfl | rfl <;> decide
  constructor
  · intro escaped front back same
    exact escaped ('~' :: d :: front) back (by rw [same]; rfl)
  · intro escaped front back same
    cases front with
    | nil =>
      obtain ⟨-, rfl⟩ := List.cons.inj same
      exact digit.imp (congrArg some) (congrArg some)
    | cons c front => exact (escaped_cons plain).mpr escaped front back (List.cons.inj same).2

theorem escapeChars_unescapeChars (single : '/' ∉ cs) : escapeChars (unescapeChars cs) = cs ↔ Escaped cs := by
  induction cs using unescapeChars.induct with
  | case1 =>
    have none_ : Escaped [] := fun front back same => by simp at same
    exact ⟨fun _ => none_, fun _ => rfl⟩
  | case2 rest ih =>
    have within : '/' ∉ rest := fun inside => single (List.mem_cons_of_mem _ (List.mem_cons_of_mem _ inside))
    rw [unescapeChars, escapeChars, escaped_pair (.inr rfl), ← ih within]
    simp
  | case3 rest ih =>
    have within : '/' ∉ rest := fun inside => single (List.mem_cons_of_mem _ (List.mem_cons_of_mem _ inside))
    rw [unescapeChars, escapeChars, escaped_pair (.inl rfl), ← ih within]
    simp
  | case4 c rest one zero ih =>
    obtain ⟨slash, within⟩ := not_or.mp (mt List.mem_cons.mpr single)
    rw [unescapeChars]
    · by_cases tilde : c = '~'
      · subst tilde
        -- A tilde before another character comes back with a zero behind it.
        rw [escapeChars]
        constructor
        · intro same
          exact absurd (List.cons.inj same).2.symm (zero _ rfl)
        · intro escaped
          rcases escaped [] rest rfl with headed | headed
          · obtain ⟨later, same⟩ := List.head?_eq_some_iff.mp headed
            exact absurd same (zero later rfl)
          · obtain ⟨later, same⟩ := List.head?_eq_some_iff.mp headed
            exact absurd same (one later rfl)
      · rw [escapeChars, escaped_cons tilde, ← ih within]
        · simp
        · exact tilde
        · exact Ne.symm slash
    · exact one
    · exact zero

theorem unescapeChars_ne_nil (some : cs ≠ []) : unescapeChars cs ≠ [] := by
  cases cs using unescapeChars.fun_cases with
  | case1 => exact absurd rfl some
  | case2 rest => simp [unescapeChars]
  | case3 rest => simp [unescapeChars]
  | case4 c rest one zero =>
    rw [unescapeChars]
    · simp
    · exact one
    · exact zero

end Pointer

theorem Section.segment_ofSegment (segment : String) : (Section.ofSegment segment).segment = segment := by
  unfold Section.ofSegment
  repeat' split
  all_goals simp only [Section.segment, *]

namespace ComponentRef

structure Written where
  origin : RefOrigin
  segment : String
  name : String

namespace Written

def lead (w : Written) : String :=
  match w.origin with
  | .standard => "#/components/"
  | .external hash => "#/x-ext/" ++ hash ++ "/components/"

def text (w : Written) : String := w.lead ++ w.segment ++ "/" ++ w.name

structure Valid (w : Written) : Prop where
  letters : ∀ c ∈ w.segment.toList, ('a' ≤ c ∧ c ≤ 'z') ∨ ('A' ≤ c ∧ c ≤ 'Z')
  section_ : w.segment ≠ ""
  named : w.name ≠ ""
  single : '/' ∉ w.name.toList
  hash : ∀ hash, w.origin = .external hash → hash ≠ "" ∧ '/' ∉ hash.toList

-- What is read: `~1` becomes a slash everywhere, and then `~0` a tilde.
def read (w : Written) : ComponentRef where
  origin := w.origin
  kind := .ofSegment w.segment
  name := String.ofList (Pointer.replacePair '~' '0' '~' (Pointer.replacePair '~' '1' '/' w.name.toList))

end Written

variable {cs rest before after : List Char} {w : Written}

theorem after?_eq_some : after? lead cs = some rest ↔ cs = lead.toList ++ rest := by
  unfold after?
  constructor
  · intro found
    split at found
    · rename_i leads
      obtain ⟨later, rfl⟩ := List.isPrefixOf_iff_prefix.mp leads
      rw [← String.length_toList, List.drop_left] at found
      rw [Option.some.inj found]
    · cases found
  · rintro rfl
    rw [if_pos (List.isPrefixOf_iff_prefix.mpr (List.prefix_append _ _)), ← String.length_toList, List.drop_left]

theorem cut?_eq_some : cut? separator cs = some (before, after) ↔ cs = before ++ separator :: after ∧ separator ∉ before := by
  induction cs generalizing before with
  | nil => simp [cut?]
  | cons c rest ih =>
    rw [cut?]
    split
    · rename_i same
      subst same
      cases before with
      | nil => simp [eq_comm]
      | cons d before =>
        simp only [Option.some.injEq, Prod.mk.injEq, List.cons_append, List.cons.injEq, List.mem_cons, not_or]
        exact ⟨nofun, fun ⟨⟨same, _⟩, other, _⟩ => absurd same other⟩
    · rename_i other
      cases before with
      | nil =>
        simp only [Option.map_eq_some_iff, List.nil_append, List.cons.injEq]
        exact ⟨nofun, fun ⟨⟨same, _⟩, _⟩ => absurd same other⟩
      | cons d before =>
        simp only [Option.map_eq_some_iff, Prod.exists, Prod.mk.injEq, List.cons.injEq, List.cons_append, List.mem_cons,
          not_or]
        constructor
        · rintro ⟨_, _, found, ⟨rfl, rfl⟩, rfl⟩
          obtain ⟨rfl, outside⟩ := ih.mp found
          exact ⟨⟨rfl, rfl⟩, Ne.symm other, outside⟩
        · rintro ⟨⟨rfl, rfl⟩, _, outside⟩
          exact ⟨before, after, ih.mpr ⟨rfl, outside⟩, ⟨rfl, rfl⟩, rfl⟩

theorem isAsciiLetter_iff : isAsciiLetter c = true ↔ ('a' ≤ c ∧ c ≤ 'z') ∨ ('A' ≤ c ∧ c ≤ 'Z') := by
  simp [isAsciiLetter]

theorem slash_not_mem_letters {segment : List Char} (letters : segment.all isAsciiLetter = true) : '/' ∉ segment := by
  intro inside
  exact absurd (List.all_eq_true.mp letters '/' inside) (by decide)

theorem target?_eq_some {kind : Section} {name : String} : target? cs = some (kind, name) ↔
    ∃ segment written, cs = segment ++ '/' :: written ∧ segment ≠ [] ∧ written ≠ [] ∧ '/' ∉ written ∧
      segment.all isAsciiLetter = true ∧ kind = .ofSegment (String.ofList segment) ∧
      name = Pointer.unescape (String.ofList written) := by
  unfold target?
  constructor
  · intro found
    split at found
    · cases found
    · rename_i segment written cut
      obtain ⟨rfl, _⟩ := cut?_eq_some.mp cut
      split at found
      · cases found
      · rename_i fits
        obtain ⟨rfl, rfl⟩ := Prod.mk.inj (Option.some.inj found)
        simp only [Bool.or_eq_true, decide_eq_true_eq, List.contains_iff_mem, Bool.not_eq_true', not_or,
          Bool.not_eq_false] at fits
        obtain ⟨⟨⟨section_, named⟩, single⟩, letters⟩ := fits
        exact ⟨segment, written, rfl, section_, named, single, letters, rfl, rfl⟩
  · rintro ⟨segment, written, rfl, section_, named, single, letters, rfl, rfl⟩
    rw [cut?_eq_some.mpr ⟨rfl, slash_not_mem_letters letters⟩]
    simp [section_, named, single, letters]

theorem Written.toList_text (w : Written) :
    w.text.toList = w.lead.toList ++ (w.segment.toList ++ '/' :: w.name.toList) := by
  simp [text]

theorem Written.Valid.target? (valid : w.Valid) :
    target? (w.segment.toList ++ '/' :: w.name.toList) = some (w.read.kind, w.read.name) := by
  refine target?_eq_some.mpr ⟨w.segment.toList, w.name.toList, rfl, ?_, ?_, valid.single, ?_, ?_, ?_⟩
  · simpa using valid.section_
  · simpa using valid.named
  · exact List.all_eq_true.mpr fun c inside => isAsciiLetter_iff.mpr (valid.letters c inside)
  · simp [read]
  · simp [read, Pointer.unescape, Pointer.unescapeChars_eq_replace]

theorem after?_lifted (rest : List Char) : after? "#/components/" ("#/x-ext/".toList ++ rest) = none := by
  cases found : after? "#/components/" ("#/x-ext/".toList ++ rest) with
  | none => rfl
  | some later =>
    have same := after?_eq_some.mp found
    simp at same

theorem Written.Valid.ofText? (valid : w.Valid) : ofText? w.text = some w.read := by
  have inner := valid.target?
  unfold ComponentRef.ofText? ofChars?
  rw [toList_text, lead]
  cases origin : w.origin with
  | standard =>
    dsimp only
    rw [after?_eq_some.mpr rfl]
    dsimp only
    rw [inner, Option.map_some, read, origin]
  | external hash =>
    obtain ⟨some_, outside⟩ := valid.hash hash origin
    have given : hash.toList ≠ [] := by simpa using some_
    generalize target : w.segment.toList ++ '/' :: w.name.toList = rest at inner
    have whole : ("#/x-ext/" ++ hash ++ "/components/").toList ++ rest =
        "#/x-ext/".toList ++ (hash.toList ++ '/' :: ("components/".toList ++ rest)) := by
      simp
    have first := after?_eq_some.mpr (rfl : "#/x-ext/".toList ++ (hash.toList ++ '/' :: ("components/".toList ++ rest)) = _)
    have second := cut?_eq_some.mpr ⟨(rfl : hash.toList ++ '/' :: ("components/".toList ++ rest) = _), outside⟩
    have third := after?_eq_some.mpr (rfl : "components/".toList ++ rest = _)
    dsimp only
    rw [whole, after?_lifted]
    simp only [first, second, third, inner, given, Option.bind_eq_bind, Option.bind_some, if_false, String.ofList_toList]
    rw [read, origin]

theorem exists_written {kind : Section} {name : String} (found : target? cs = some (kind, name)) (origin : RefOrigin)
    (hash : ∀ hash, origin = .external hash → hash ≠ "" ∧ '/' ∉ hash.toList) :
    ∃ w : Written, w.Valid ∧ w.text.toList = w.lead.toList ++ cs ∧ w.origin = origin ∧ w.read = ⟨origin, kind, name⟩ := by
  obtain ⟨segment, written, rfl, section_, named, single, letters, rfl, rfl⟩ := target?_eq_some.mp found
  refine ⟨⟨origin, String.ofList segment, String.ofList written⟩, ⟨?_, ?_, ?_, ?_, hash⟩, ?_, rfl, ?_⟩
  · intro c inside
    exact isAsciiLetter_iff.mp (List.all_eq_true.mp letters c (by simpa using inside))
  · simpa using section_
  · simpa using named
  · simpa using single
  · simp [Written.toList_text]
  · simp [Written.read, Pointer.unescape, Pointer.unescapeChars_eq_replace]

theorem written_of_ofText? {spelled : String} (accepted : ComponentRef.ofText? spelled = some r) :
    ∃ w : Written, w.Valid ∧ w.text = spelled ∧ w.read = r := by
  unfold ofText? ofChars? at accepted
  split at accepted
  · rename_i rest leads
    obtain ⟨⟨kind, name⟩, found, rfl⟩ := Option.map_eq_some_iff.mp accepted
    obtain ⟨w, valid, same, origin, read⟩ := exists_written found .standard nofun
    refine ⟨w, valid, ?_, read⟩
    rw [← String.toList_inj, same, after?_eq_some.mp leads, Written.lead, origin]
  · obtain ⟨rest, leads, accepted⟩ := Option.bind_eq_some_iff.mp accepted
    obtain ⟨⟨hash, inner⟩, cut, accepted⟩ := Option.bind_eq_some_iff.mp accepted
    dsimp only at accepted
    split at accepted
    · cases accepted
    · rename_i given
      obtain ⟨rest, components, accepted⟩ := Option.bind_eq_some_iff.mp accepted
      obtain ⟨⟨kind, name⟩, found, accepted⟩ := Option.bind_eq_some_iff.mp accepted
      cases accepted
      obtain ⟨rfl, outside⟩ := cut?_eq_some.mp cut
      obtain ⟨w, valid, same, origin, read⟩ := exists_written found (.external (String.ofList hash)) (by
        rintro _ ⟨⟩
        simpa using ⟨given, outside⟩)
      refine ⟨w, valid, ?_, read⟩
      rw [← String.toList_inj, same, after?_eq_some.mp leads, after?_eq_some.mp components, Written.lead, origin]
      simp

def Written.respelled (w : Written) : Written :=
  { w with name := Pointer.escape (Pointer.unescape w.name) }

theorem Written.text_read (w : Written) : w.read.text = w.respelled.text := by
  unfold ComponentRef.text ComponentRef.pointer read text lead respelled
  rw [Section.segment_ofSegment, ← Pointer.unescapeChars_eq_replace]
  cases w.origin with
  | standard => simp [Pointer.unescape, ← String.toList_inj]
  | external hash => simp [Pointer.unescape, ← String.toList_inj]

theorem Written.read_respelled (w : Written) : w.respelled.read = w.read := by
  unfold read respelled
  simp [Pointer.unescape, Pointer.escape, ← Pointer.unescapeChars_eq_replace, Pointer.unescapeChars_escapeChars]

theorem Written.Valid.respelled (valid : w.Valid) : w.respelled.Valid := by
  unfold Written.respelled
  refine ⟨valid.letters, valid.section_, ?_, ?_, valid.hash⟩
  · have some_ : Pointer.escapeChars (Pointer.unescapeChars w.name.toList) ≠ [] :=
      Pointer.escapeChars_ne_nil (Pointer.unescapeChars_ne_nil (by simpa using valid.named))
    simpa [Pointer.escape, Pointer.unescape] using some_
  · have single := Pointer.slash_not_mem_escapeChars (Pointer.unescapeChars w.name.toList)
    simpa [Pointer.escape, Pointer.unescape] using single

theorem Written.Valid.text_respelled (valid : w.Valid) : w.respelled.text = w.text ↔ Pointer.Escaped w.name.toList := by
  rw [← Pointer.escapeChars_unescapeChars valid.single, ← String.toList_inj, toList_text, toList_text]
  simp [Written.respelled, lead, Pointer.escape, Pointer.unescape]

end ComponentRef

theorem schemaRef_injective : Function.Injective schemaRef := by
  intro name other same
  have names : Pointer.escapeChars name.toList = Pointer.escapeChars other.toList := by
    simpa [schemaRef, ComponentRef.schema, ComponentRef.text, ComponentRef.pointer, Pointer.escape,
      ← String.toList_inj] using same
  have letters := congrArg Pointer.unescapeChars names
  rw [Pointer.unescapeChars_escapeChars, Pointer.unescapeChars_escapeChars] at letters
  exact String.toList_inj.mp letters

-- References that are read are those of the two forms. One that is written again reads back,
-- and it is written as before exactly where every tilde of its name escapes something. Every
-- name of a schema reads back from its reference, so no two names share one.
theorem reference_round_trip :
    (∀ text r, ComponentRef.ofText? text = some r ↔ ∃ w : ComponentRef.Written, w.Valid ∧ w.text = text ∧ w.read = r) ∧
    (∀ w : ComponentRef.Written, w.Valid → ComponentRef.ofText? w.read.text = some w.read ∧
      (w.read.text = w.text ↔ Pointer.Escaped w.name.toList)) ∧
    (∀ name, name ≠ "" → schemaNameOf? (schemaRef name) = some name) ∧
    ∀ name other, schemaRef name = schemaRef other → name = other := by
  refine ⟨fun text r => ⟨ComponentRef.written_of_ofText?, ?_⟩, ?_, fun name => schemaNameOf?_schemaRef,
    fun _ _ same => schemaRef_injective same⟩
  · rintro ⟨w, valid, rfl, rfl⟩
    exact valid.ofText?
  · intro w valid
    rw [w.text_read]
    refine ⟨?_, valid.text_respelled⟩
    rw [valid.respelled.ofText?, w.read_respelled]

def loneTilde : ComponentRef.Written := ⟨.external "a1", "schemas", "~01~"⟩

theorem reference_round_trip_loneTilde : loneTilde.Valid ∧ loneTilde.read.name = "~1~" ∧
    ComponentRef.ofText? loneTilde.text = some loneTilde.read ∧
    ComponentRef.ofText? loneTilde.read.text = some loneTilde.read ∧ loneTilde.read.text ≠ loneTilde.text := by
  obtain ⟨accepted, again, _⟩ := reference_round_trip
  have letters : loneTilde.segment.toList.all ComponentRef.isAsciiLetter = true := by decide
  have valid : loneTilde.Valid :=
    ⟨fun c listed => ComponentRef.isAsciiLetter_iff.mp (List.all_eq_true.mp letters c listed), by decide, by decide,
      by decide, by rintro _ ⟨⟩; decide⟩
  obtain ⟨back, same⟩ := again loneTilde valid
  refine ⟨valid, by decide, (accepted _ _).mpr ⟨loneTilde, valid, rfl, rfl⟩, back, fun unchanged => ?_⟩
  rcases same.mp unchanged ['~', '0', '1'] [] rfl with headed | headed
  · cases headed
  · cases headed

end SchemaAtlas
