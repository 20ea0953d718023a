import UioLinuxSample.StructGraph.Refines

set_option autoImplicit false

/-! # The edges of the graph

For files of flat definitions the edges are those of the members that are structures, and they do not
depend on the order of the definitions (`edges_of_clean`), as long as the script reads the lines as
what they are. It does not for a name that ends in `_const` (`edges_wrong`).
-/

namespace UioLinuxSample.StructGraph

/-! ## Definitions -/

/-- A flat definition: the line `struct A {`, the lines of the members and the line `};`. -/
structure Definition where
  name : Text
  opening : Text
  members : List Text
  closing : Text
  isName : IsName name
  ne_created : name ≠ createdKey
  isOpening : IsOpening opening name
  isClosing : IsClosing closing
  flat : ∀ line ∈ members, line ≠ [] ∧ '{' ∉ line ∧ '}' ∉ line

namespace Definition

def lines (d : Definition) : List Text := d.opening :: (d.members ++ [d.closing])

/-- The name and the types that the script reads in the members. -/
def reads (d : Definition) : Text × List Text := (d.name, d.members.filterMap readType)

/-- A member line of the form `struct B *name;`. -/
def HasMember (d : Definition) (type : Text) : Prop := ∃ line ∈ d.members, IsMember line type

/-- The script can read the definition. -/
structure Readable (d : Definition) : Prop where
  opening : ConstFree d.opening
  members : ∀ line ∈ d.members, readType line ≠ some createdKey

variable {r : Resolve.State Text} {s : State} {d : Definition}

theorem opening_ne_nil (d : Definition) : d.opening ≠ [] := by
  obtain ⟨lead, gap, gap', tail, -, -, -, -, -, hline⟩ := d.isOpening
  rw [hline]
  simp

theorem closing_ne_nil (d : Definition) : d.closing ≠ [] := by
  obtain ⟨lead, gap, tail, -, -, -, hline⟩ := d.isClosing
  rw [hline]
  simp

/-- The run over the members of a definition. -/
theorem readLines_members (d : Definition) (lines : List Text) (hlines : lines ⊆ d.members)
    (hread : d.Readable) (h : Refines r s) (hin : InNode 1 d.name s) (hname : d.name ∈ r.defined)
    (rest : List Text) :
    ∃ s', State.readLines (lines ++ rest) s = State.readLines rest s' ∧ InNode 1 d.name s'
      ∧ Refines ((lines.filterMap readType).foldl (fun r b => r.use d.name b) r) s' := by
  induction lines generalizing r s with
  | nil => exact ⟨s, rfl, hin, h⟩
  | cons line lines ih =>
      obtain ⟨hline, hlines⟩ := List.cons_subset.mp hlines
      obtain ⟨hne, hopen, hclose⟩ := d.flat line hline
      obtain ⟨s₁, hs₁, hin₁, h₁⟩ :=
        readLine_refines h hin hname d.ne_created hopen hclose (hread.members line hline)
      obtain ⟨s₂, hs₂, hin₂, h₂⟩ := ih hlines h₁ hin₁ (by rwa [foldl_use_defined])
      refine ⟨s₂, ?_, hin₂, ?_⟩
      · rw [List.cons_append, readLines_cons hne hs₁, hs₂]
      -- a line is at most one use
      · rw [← List.foldl_append] at h₂
        cases htype : readType line with
        | none =>
            rw [List.filterMap_cons_none htype]
            rwa [htype] at h₂
        | some type =>
            rw [List.filterMap_cons_some htype]
            rwa [htype] at h₂

/-- The run over a definition. -/
theorem readLines_lines (hread : d.Readable) (h : Refines r s) (hlevel : s.level = 0)
    (rest : List Text) :
    ∃ s', State.readLines (d.lines ++ rest) s = State.readLines rest s' ∧ s'.level = 0
      ∧ Refines (r.read d.reads) s' := by
  obtain ⟨s₁, hs₁, h₁, hin₁⟩ :=
    openStruct_refines h hlevel d.isName.colon_not_mem d.ne_created
  rw [← readLine_opening s d.isName d.isOpening hread.opening] at hs₁
  have hname₁ : d.name ∈ (r.define d.name).defined :=
    List.mem_append_right _ List.mem_cons_self
  obtain ⟨s₂, hs₂, hin₂, h₂⟩ := d.readLines_members d.members (List.Subset.refl _) hread h₁ hin₁
    hname₁ (d.closing :: rest)
  obtain ⟨s₃, hs₃, h₃, hlevel₃⟩ :=
    closeStruct_refines h₂ hin₂ (by rwa [foldl_use_defined]) d.ne_created
  rw [← readLine_closing s₂ d.isClosing] at hs₃
  refine ⟨s₃, ?_, hlevel₃, h₃⟩
  rw [lines, List.cons_append, List.append_assoc, readLines_cons d.opening_ne_nil hs₁,
    List.singleton_append, hs₂, readLines_cons d.closing_ne_nil hs₃]

/-- **The script resolves the references of a file.** -/
theorem readLines_flatMap (ds : List Definition) (hread : ∀ d ∈ ds, d.Readable) (h : Refines r s)
    (hlevel : s.level = 0) :
    ∃ s', State.readLines (ds.flatMap lines) s = .ok s'
      ∧ Refines (r.readAll (ds.map reads)) s' := by
  induction ds generalizing r s with
  | nil => exact ⟨s, rfl, h⟩
  | cons d ds ih =>
      obtain ⟨hd, hds⟩ := List.forall_mem_cons.mp hread
      obtain ⟨s₁, hs₁, hlevel₁, h₁⟩ := readLines_lines hd h hlevel (ds.flatMap lines)
      obtain ⟨s₂, hs₂, h₂⟩ := ih hds h₁ hlevel₁
      exact ⟨s₂, hs₁.trans hs₂, h₂⟩

end Definition

/-! ## The graph of a file -/

/-- Each edge is there once, and there is one from `a` to `b` if and only if both are defined and `a`
has a member `struct b *name;`. -/
structure EdgesRight (ds : List Definition) (s : State) : Prop where
  nodup : s.edgeList.Nodup
  count_eq_one : ∀ a b, s.edgeList.count (edgeText a b) = 1
    ↔ (∃ d ∈ ds, d.name = a ∧ d.HasMember b) ∧ b ∈ ds.map Definition.name

section File

variable {ds : List Definition} {s : State}

/-- The edges of a file are those of the types that are read in it. -/
theorem edges_spec (hread : ∀ d ∈ ds, d.Readable) :
    ∃ s, State.readLines (ds.flatMap Definition.lines) State.init = .ok s ∧ s.edgeList.Nodup
      ∧ (∀ e ∈ s.edgeList, ∃ a b, e = edgeText a b)
      ∧ ∀ a b, edgeText a b ∈ s.edgeList
        ↔ (∃ d ∈ ds, d.name = a ∧ b ∈ d.reads.2) ∧ b ∈ ds.map Definition.name := by
  obtain ⟨s, hs, h⟩ := Definition.readLines_flatMap ds hread refines_init rfl
  refine ⟨s, hs, ?_, ?_, fun a b => ?_⟩
  · rw [h.edges]
    apply List.Nodup.map_on _ (Resolve.State.nodup_links_readAll _)
    intro x _ y hy hxy
    obtain ⟨h₁, h₂⟩ := h.linked y hy
    exact Prod.ext_iff.mpr (edgeText_inj (h.named _ h₁) (h.named _ h₂) hxy)
  · intro e he
    rw [h.edges] at he
    obtain ⟨x, -, rfl⟩ := List.mem_map.mp he
    exact ⟨x.1, x.2, rfl⟩
  · rw [h.mem_edgeList, Resolve.State.mem_links_readAll, List.map_map]
    simp only [List.mem_map, exists_exists_and_eq_and]
    rfl

/-- The lines are read as what they are: the opening lines have no `const` to be removed, and each line
of a member is one of the form `struct B *name;` that has none, or it does not mention `created` or a
structure of the file where the script looks for a type. -/
structure Definition.Clean (names : List Text) (d : Definition) : Prop where
  opening : ConstFree d.opening
  members : ∀ line ∈ d.members,
    (∃ type, type ≠ createdKey ∧ IsMember line type ∧ ConstFree line)
      ∨ ∀ type, type = createdKey ∨ type ∈ names →
          ¬ IsMember line type ∧ ¬ Mentions (removeConst line) type

theorem Definition.Clean.readable {names : List Text} {d : Definition} (h : d.Clean names) :
    d.Readable := by
  refine ⟨h.opening, fun line hline hread => ?_⟩
  rcases h.members line hline with ⟨type, hne, hmember, hconst⟩ | hother
  · rw [readType_of_isMember hmember hconst] at hread
    exact hne (Option.some.inj hread)
  · exact (hother createdKey (.inl rfl)).2 (mentions_of_readType hread)

theorem Definition.Clean.mem_reads {names : List Text} {d : Definition} (h : d.Clean names)
    {type : Text} (htype : type ∈ names) : type ∈ d.reads.2 ↔ d.HasMember type := by
  -- the same for each line, so that a type cannot be read in place of another one
  have hline : ∀ line ∈ d.members, readType line = some type ↔ IsMember line type := by
    intro line hline
    rcases h.members line hline with ⟨other, -, hmember, hconst⟩ | hother
    · refine ⟨fun hread => ?_, fun h => readType_of_isMember h hconst⟩
      rw [readType_of_isMember hmember hconst] at hread
      rwa [← Option.some.inj hread]
    · obtain ⟨hmember, hmentions⟩ := hother type (.inr htype)
      exact ⟨fun hread => absurd (mentions_of_readType hread) hmentions, fun h => absurd h hmember⟩
  rw [Definition.reads, List.mem_filterMap]
  exact exists_congr fun line => and_congr_right fun hmem => hline line hmem

/-- **The edges do not depend on the order of the definitions.** -/
theorem edges_of_clean (ds : List Definition)
    (hclean : ∀ d ∈ ds, d.Clean (ds.map Definition.name)) :
    ∃ s, State.readLines (ds.flatMap Definition.lines) State.init = .ok s ∧ EdgesRight ds s
      ∧ ∀ es : List Definition, es.Perm ds →
          ∃ s', State.readLines (es.flatMap Definition.lines) State.init = .ok s'
            ∧ ∀ e, e ∈ s'.edgeList ↔ e ∈ s.edgeList := by
  obtain ⟨s, hs, hnodup, htext, hmem⟩ := edges_spec fun d hd => (hclean d hd).readable
  refine ⟨s, hs, ⟨hnodup, fun a b => ?_⟩, fun es hperm => ?_⟩
  · have hcount : s.edgeList.count (edgeText a b) = 1 ↔ edgeText a b ∈ s.edgeList :=
      ⟨fun h => List.count_pos_iff.mp (by omega), List.count_eq_one_of_mem hnodup⟩
    rw [hcount, hmem]
    exact and_congr_left fun hb => exists_congr fun d => and_congr_right fun hd =>
      and_congr_right fun _ => (hclean d hd).mem_reads hb
  · obtain ⟨s', hs', -, htext', hmem'⟩ :=
      edges_spec fun d hd => (hclean d (hperm.mem_iff.mp hd)).readable
    -- both files have the same definitions, and the edges depend on these only
    have hsame : ∀ a b, edgeText a b ∈ s'.edgeList ↔ edgeText a b ∈ s.edgeList := by
      intro a b
      rw [hmem, hmem', (hperm.map Definition.name).mem_iff]
      simp only [hperm.mem_iff]
    refine ⟨s', hs', fun e => ⟨fun he => ?_, fun he => ?_⟩⟩
    · obtain ⟨a, b, rfl⟩ := htext' e he
      exact (hsame a b).mp he
    · obtain ⟨a, b, rfl⟩ := htext e he
      exact (hsame a b).mpr he

end File

/-! ### Two files -/

/-- A definition with the lines `struct A \x7b` and `};`. -/
def Definition.plain (name : Text) (members : List Text) (hname : IsName name)
    (hne : name ≠ createdKey) (hflat : ∀ line ∈ members, line ≠ [] ∧ '{' ∉ line ∧ '}' ∉ line) :
    Definition where
  name := name
  opening := structWord ++ (" ".toList ++ (name ++ (" ".toList ++ '{' :: "\n".toList)))
  members := members
  closing := '}' :: ';' :: "\n".toList
  isName := hname
  ne_created := hne
  isOpening := ⟨[], " ".toList, " ".toList, "\n".toList, by decide, by decide, by decide, by decide,
    by decide, rfl⟩
  isClosing := ⟨[], [], "\n".toList, by decide, by decide, by decide, rfl⟩
  flat := hflat

/-- The line `struct B *name;`. -/
def pointerLine (type name : Text) : Text :=
  "\t".toList ++ (structWord ++ (" ".toList ++ (type ++ (" ".toList ++ ("*".toList ++ (name
    ++ (";".toList ++ "\n".toList)))))))

theorem isMember_pointerLine {type name : Text} (htype : IsName type) (hname : IsName name) :
    IsMember (pointerLine type name) type := by
  let m : MemberText := ⟨" ".toList, type, " ".toList, "*".toList, [], name, [], by decide, htype,
    by decide, by decide, by decide, hname, by decide⟩
  have hline : pointerLine type name = "\t".toList ++ (m.text ++ "\n".toList) := by
    simp only [pointerLine, MemberText.text, m, List.append_assoc, List.nil_append]
    rfl
  have hblank : " ".toList ≠ [] ∧ " ".toList ++ "*".toList ++ [] ≠ [] := by decide
  exact ⟨m, ⟨hblank.1, hblank.2⟩, rfl, _, _, by decide, by decide, hline⟩

def treeFile : List Definition :=
  [.plain "tree".toList
      [pointerLine "leaf".toList "left".toList, "\tint key;\n".toList,
        pointerLine "leaf".toList "right".toList, pointerLine "tree".toList "up".toList]
      (by decide) (by decide) (by decide),
   .plain "leaf".toList [pointerLine "tree".toList "up".toList] (by decide) (by decide) (by decide)]

theorem clean_treeFile : ∀ d ∈ treeFile, d.Clean (treeFile.map Definition.name) := by
  have hfree : ∀ line : Text, 'o' ∉ line → ConstFree line := fun line =>
    constFree_of_not_mem (by decide)
  have hother : ∀ type, ¬ IsMember "\tint key;\n".toList type
      ∧ ¬ Mentions (removeConst "\tint key;\n".toList) type := by
    intro type
    have hs : 's' ∉ "\tint key;\n".toList := by decide
    exact ⟨fun h => not_mentions (by decide) hs type h.mentions,
      not_mentions (by decide) (not_mem_removeConst (by decide) hs) type⟩
  have hleft := isMember_pointerLine (by decide : IsName "leaf".toList)
    (by decide : IsName "left".toList)
  have hright := isMember_pointerLine (by decide : IsName "leaf".toList)
    (by decide : IsName "right".toList)
  have hup := isMember_pointerLine (by decide : IsName "tree".toList)
    (by decide : IsName "up".toList)
  rw [treeFile, List.forall_mem_cons, List.forall_mem_singleton]
  refine ⟨⟨hfree _ (by decide), ?_⟩, ⟨hfree _ (by decide), ?_⟩⟩
  · refine List.forall_mem_cons.mpr ⟨.inl ⟨_, by decide, hleft, hfree _ (by decide)⟩, ?_⟩
    refine List.forall_mem_cons.mpr ⟨.inr fun type _ => hother type, ?_⟩
    refine List.forall_mem_cons.mpr ⟨.inl ⟨_, by decide, hright, hfree _ (by decide)⟩, ?_⟩
    exact List.forall_mem_singleton.mpr (.inl ⟨_, by decide, hup, hfree _ (by decide)⟩)
  · exact List.forall_mem_singleton.mpr (.inl ⟨_, by decide, hup, hfree _ (by decide)⟩)

/-- A structure that is used before it is defined, twice, and one that is used in itself. -/
theorem edges_of_clean_tree :
    ∃ s, State.readLines (treeFile.flatMap Definition.lines) State.init = .ok s
      ∧ EdgesRight treeFile s
      ∧ ∀ es : List Definition, es.Perm treeFile →
          ∃ s', State.readLines (es.flatMap Definition.lines) State.init = .ok s'
            ∧ ∀ e, e ∈ s'.edgeList ↔ e ∈ s.edgeList :=
  edges_of_clean treeFile clean_treeFile

def constFile : List Definition :=
  [.plain "b_const".toList ["\tint x;\n".toList] (by decide) (by decide) (by decide),
   .plain "a".toList [pointerLine "b_const".toList "p".toList] (by decide) (by decide) (by decide)]

/-- The removal of `const` takes the end of the name `b_const`, and the edge to it is lost. -/
theorem edges_wrong :
    (constFile.map Definition.name).Nodup
      ∧ ¬ ∃ s, State.readLines (constFile.flatMap Definition.lines) State.init = .ok s
        ∧ EdgesRight constFile s := by
  refine ⟨by decide, ?_⟩
  rintro ⟨s, hs, h⟩
  -- the one edge goes to `b`, which nobody has defined
  have hedges : (State.readLines (constFile.flatMap Definition.lines) State.init).toOption.map
      State.edgeList = some [edgeText "a".toList "b".toList] := by decide +kernel
  have hmember : ∃ d ∈ constFile, d.name = "a".toList ∧ d.HasMember "b_const".toList :=
    ⟨_, List.mem_cons_of_mem _ List.mem_cons_self, rfl, _, List.mem_cons_self,
      isMember_pointerLine (by decide) (by decide : IsName "p".toList)⟩
  have hone := (h.count_eq_one "a".toList "b_const".toList).mpr ⟨hmember, by decide⟩
  rw [hs] at hedges
  rw [Option.some.inj hedges] at hone
  exact absurd hone (by decide)

end UioLinuxSample.StructGraph
