import PathQuery.Proofs.Compile.Plan
import PathQuery.Proofs.Expr.Print
import PathQuery.Proofs.Join.Tidy
import PathQuery.Proofs.Template.Binding

/-!
How SQL is composed. Every way of putting fragments together weaves them in their order into text
that has no placeholders of its own.
-/

namespace PathQuery

open Sql

/-! ### Names and numbers -/

namespace Expr

theorem IsName.seam {name : String} (h : IsName name) : Seam name.toList := by
  refine seam_plain (List.all_eq_true.mpr fun c hc => ?_)
  exact isPlain_of_class (p := Expr.isNameRest) (by decide) (h.isNameRest c hc)

theorem IsDigits.seam {cs : List Char} (h : IsDigits cs) : Seam cs := by
  refine seam_plain (List.all_eq_true.mpr fun c hc => ?_)
  exact isPlain_of_class (p := Char.isDigit) (by decide) (h.2 c hc)

theorem IsNumber.seam {cs : List Char} (h : IsNumber cs) : Seam cs := by
  obtain ⟨whole, part, power, rfl, hwhole, hpart, hpower⟩ := h
  have hplaces : Seam part := by
    rcases hpart with rfl | ⟨ds, rfl, hds⟩
    · exact seam_nil
    · have hpoint : Seam ['.'] := seam_plain (by decide)
      exact hpoint.append hds.seam
  have hexponent : Seam power := by
    rcases hpower with rfl | ⟨mark, sign, ds, rfl, hmark, hsign, hds⟩
    · exact seam_nil
    · have hlead : Seam (mark :: sign) := by
        refine seam_plain ?_
        rcases hmark with rfl | rfl <;> rcases hsign with rfl | rfl | rfl <;> decide
      exact hlead.append hds.seam
  exact (hwhole.seam.append hplaces).append hexponent

/-- Whether an expression brings no more than its operands. -/
def isNode : Expr → Bool
  | .placeholder _ => false
  | .str text => text.toList.head? != some '@'
  | .call name _ => !Compile.isSubquery name
  | _ => true

end Expr

/-! ### Columns and tables -/

namespace Column

theorem mem_dashed {after : Bool} {cs : List Char} {c : Char} (h : c ∈ dashed after cs) :
    c = '-' ∨ c ∈ cs ∧ isDash c = false := by
  induction cs generalizing after with
  | nil => cases h
  | cons d cs ih =>
    rw [dashed] at h
    split at h
    · split at h
      · exact (ih h).imp_right fun hc => ⟨List.mem_cons_of_mem d hc.1, hc.2⟩
      · rcases List.mem_cons.mp h with rfl | h
        · exact .inl rfl
        · exact (ih h).imp_right fun hc => ⟨List.mem_cons_of_mem d hc.1, hc.2⟩
    · next hd =>
      rcases List.mem_cons.mp h with rfl | h
      · exact .inr ⟨List.mem_cons_self, by simpa using hd⟩
      · exact (ih h).imp_right fun hc => ⟨List.mem_cons_of_mem d hc.1, hc.2⟩

theorem isWordChar_of_mem_slug {expression : String} {c : Char}
    (h : c ∈ (slug expression).toList) : Text.isWordChar c := by
  rw [slug, String.toList_ofList, List.mem_map] at h
  obtain ⟨a, ha, rfl⟩ := h
  have hdashed := (List.dropWhile_suffix isEdge).mem
    (List.mem_reverse.mp ((List.dropWhile_suffix isEdge).mem (List.mem_reverse.mp ha)))
  rcases mem_dashed hdashed with rfl | ⟨hmem, hdash⟩
  · decide
  · have hkept := List.of_mem_filter hmem
    rw [hdash, Bool.or_false] at hkept
    split
    · decide
    · exact hkept

theorem ofPart_isWord (count : Nat) (cs : List Char) : IsWord (ofPart count cs).name := by
  unfold ofPart
  split
  · next expression name hname =>
    rw [IsWord, String.toList_ofList]
    simp only [aliased?] at hname
    split at hname
    · split at hname
      · split at hname
        · next hword =>
          cases hname
          rw [Bool.and_eq_true, Bool.not_eq_true', List.isEmpty_eq_false_iff] at hword
          refine ⟨by simpa using hword.1, ?_⟩
          exact fun c hc => List.mem_takeWhile_imp (List.mem_reverse.mp hc)
        · cases hname
      · cases hname
    · cases hname
  · dsimp only
    split
    · have hchars : ("col" ++ Text.ofNat count).toList = ['c', 'o', 'l'] ++ Text.digits count := by
        simp [Text.ofNat]
      rw [IsWord, hchars]
      refine ⟨by simp, fun c hc => isWordChar_of_isNameRest ?_⟩
      rcases List.mem_append.mp hc with hc | hc
      · exact List.all_eq_true.mp (by decide : ['c', 'o', 'l'].all Expr.isNameRest) c hc
      · have hdigit := Nat.isDigit_of_mem_toDigits (by decide) (by decide) hc
        simp [Expr.isNameRest, Char.isAlphanum, hdigit]
    · next hne => exact ⟨by simpa using hne, fun _ hc => isWordChar_of_mem_slug hc⟩

theorem ofParts_isWord {parts : List (List Char)} {before cs : List Column}
    (h : ofParts before parts = .ok cs) (hbefore : ∀ c ∈ before, IsWord c.name) :
    ∀ c ∈ cs, IsWord c.name := by
  induction parts generalizing before with
  | nil =>
    cases h
    exact hbefore
  | cons part parts ih =>
    simp only [ofParts] at h
    split at h
    · exact ih h hbefore
    · split at h
      · cases h
      · refine ih h ?_
        intro c hc
        rcases List.mem_append.mp hc with hc | hc
        · exact hbefore c hc
        · rw [List.mem_singleton.mp hc]
          exact ofPart_isWord _ _

/-- An alias is a word. -/
theorem parseList_isWord {source : String} {cs : List Column} (h : parseList source = .ok cs) :
    ∀ c ∈ cs, IsWord c.name := by
  unfold parseList at h
  split at h
  · cases h
  · split at h
    · cases h
    · exact ofParts_isWord h (by simp)

theorem parseList_tidy {source : String} {cs : List Column} (h : parseList source = .ok cs) :
    ∀ c ∈ cs, Tidy c.name :=
  fun c hc => tidy_of_class (p := Text.isWordChar) (by decide) (parseList_isWord h c hc).2

end Column

/-- A property `Q` of text that plain text has, that names have in quotes if `P` holds of them, and
that is kept where texts are put together. -/
structure Spelled (P Q : String → Prop) : Prop where
  append : ∀ {s t}, Q s → Q t → Q (s ++ t)
  plain : ∀ {s}, s.toList.all isPlain → Q s
  ident : ∀ {name}, P name → Q (Text.quoteIdent name)

theorem spelled_seam : Spelled Sql.Tidy fun s => Seam s.toList :=
  ⟨Seam.then, seam_plain, seam_ident⟩

section Spelled

variable {P Q : String → Prop} (hQ : Spelled P Q)

include hQ

theorem ColumnRef.Named.spelled {c : ColumnRef} (h : c.Named P) : Q c.sql :=
  hQ.append (hQ.append (hQ.ident h.1) (hQ.plain (by decide))) (hQ.ident h.2)

theorem Relation.Named.tableSql {r : Relation} (h : r.Named P) : Q r.tableSql := by
  have has : Q " AS " := hQ.plain (by decide)
  unfold Relation.tableSql
  split
  · next a ha => exact hQ.append (hQ.append (hQ.ident h.table) has) (hQ.ident (h.knownAs a ha))
  · exact hQ.ident h.table

theorem Relation.Named.joinSql? {r : Relation} {sql : String} (h : r.Named P)
    (hsql : r.joinSql? = some sql) : Q sql := by
  have hspace : Q " " := hQ.plain (by decide)
  have hon : Q " ON (" := hQ.plain (by decide)
  have hequal : Q " = " := hQ.plain (by decide)
  have hclose : Q ")" := hQ.plain (by decide)
  have hword : Q r.join.sql := by
    cases r.join with
    | left => exact hQ.plain (by decide)
    | right => exact hQ.plain (by decide)
    | inner => exact hQ.plain (by decide)
  obtain ⟨l, hl, rfl⟩ := Option.map_eq_some_iff.mp hsql
  obtain ⟨hsource, htarget⟩ := h.linkage l hl
  have hlinkage : Q l.sql := hQ.append (hQ.append (hsource.spelled hQ) hequal) (htarget.spelled hQ)
  exact hQ.append (hQ.append (hQ.append (hQ.append (hQ.append hword hspace) (h.tableSql hQ)) hon)
    hlinkage) hclose

theorem Select.fromSql_spelled {rs : List Relation} (h : ∀ r ∈ rs, r.Named P) : Q (fromSql rs) := by
  unfold fromSql
  cases rs with
  | nil => exact hQ.plain (by decide)
  | cons master joined =>
    rw [List.forall_mem_cons] at h
    have hspace : Q " " := hQ.plain (by decide)
    refine List.foldlRecOn joined _ (hQ.append (hQ.plain (by decide)) (h.1.tableSql hQ)) ?_
    intro sql hsql r hr
    cases hjoin : r.joinSql? with
    | none => exact hsql
    | some join => exact hQ.append (hQ.append hsql hspace) ((h.2 r hr).joinSql? hQ hjoin)

end Spelled

/-- A part of a date is woven from the column. -/
theorem Dialect.datePart?_woven {d : Dialect} {part column sql : String}
    (h : d.datePart? part column = some sql) : Woven sql.toList [column] := by
  have hclose : Glue ")" := glue_of_isGlue (by decide)
  have hcomma : Seam ", ".toList := seam_plain (by decide)
  have hcolumn := woven_single column
  simp only [datePart?] at h
  split at h
  · cases h
  · next hpart =>
    rw [Bool.not_eq_true, Bool.not_eq_false', List.contains_iff_mem] at hpart
    generalize Text.lowerBasic part = name at h hpart
    cases h
    cases d with
    | postgres =>
      have hquoted : ∀ p ∈ dateParts, '\x7b' ∉ p.toList ∧
          "date_part('" ++ p ++ "', " = "date_part(" ++ Text.quoteLiteral p ++ ", " := by
        decide +kernel
      have hopen : Seam "date_part(".toList := seam_plain (by decide)
      obtain ⟨hbrace, htext⟩ := hquoted name hpart
      dsimp only
      rw [htext, String.append_assoc]
      exact ((hopen.then (seam_literal hbrace)).then hcomma).before (hcolumn.close hclose)
    | sqlite =>
      have hquoted : ∀ p ∈ dateParts, '\x7b' ∉ (formatCode p).toList ∧
          "CAST(strftime('" ++ formatCode p ++ "', " =
            "CAST(strftime(" ++ Text.quoteLiteral (formatCode p) ++ ", " := by
        decide +kernel
      have hopen : Seam "CAST(strftime(".toList := seam_plain (by decide)
      have htwice : Seam "((".toList := seam_plain (by decide)
      obtain ⟨hbrace, htext⟩ := hquoted name hpart
      have hcast : Woven ("CAST(strftime('" ++ formatCode name ++ "', " ++ column ++
          ") AS INTEGER)").toList [column] := by
        rw [htext, String.append_assoc]
        exact ((hopen.then (seam_literal hbrace)).then hcomma).before
          (hcolumn.close (glue_of_isGlue (by decide)))
      dsimp only
      split
      · exact (htwice.before hcast).close (glue_of_isGlue (by decide))
      · exact hcast
    | generic =>
      have hplain : ∀ p ∈ dateParts,
          ("EXTRACT(" ++ Text.upperBasic p ++ " FROM ").toList.all isPlain := by
        decide +kernel
      dsimp only
      rw [String.append_assoc]
      exact (seam_plain (hplain name hpart)).before (hcolumn.close hclose)

theorem PathTarget.woven (t : PathTarget) (d : Dialect) :
    Woven (t.sql d).toList [t.column.sql] := by
  unfold PathTarget.sql
  split
  · next part _ =>
    cases hd : d.datePart? part t.column.sql with
    | none => exact woven_single _
    | some sql => exact Dialect.datePart?_woven hd
  · exact woven_single _

theorem PathTarget.still {t : PathTarget} (h : t.column.Tidy) (d : Dialect) :
    Still (t.sql d).toList := by
  have hcolumn : Seam t.column.sql.toList := ColumnRef.Named.spelled spelled_seam h
  exact ((t.woven d).seam_of_parts (by simpa using hcolumn)).toStill

/-! ### Calls -/

namespace Builtin

theorem typeSize?_spec {cs size rest : List Char} (h : typeSize? cs = some (size, rest)) :
    cs = size ++ rest ∧ size.all isPlain := by
  have split (p : Char → Bool) (cs : List Char) :
      cs = cs.takeWhile p ++ cs.drop (cs.takeWhile p).length :=
    List.prefix_append_drop (List.takeWhile_prefix p)
  have plain (p : Char → Bool) (hp : (['\'', '"', '\x7b', '$', '?'].any p) = false)
      (cs : List Char) : (cs.takeWhile p).all isPlain :=
    List.all_eq_true.mpr fun c hc => isPlain_of_class hp (List.mem_takeWhile_imp hc)
  have hdigits := plain Text.isDecimalDigit (by decide)
  have hblanks := plain Text.isBlank (by decide)
  have hclose : isPlain ')' := by decide
  have hcomma : isPlain ',' := by decide
  have hfirst := split Text.isDecimalDigit cs
  simp only [typeSize?] at h
  split at h
  · cases h
  · split at h
    · next after hafter =>
      cases h
      rw [hafter] at hfirst
      refine ⟨by rw [List.append_assoc]; exact hfirst, ?_⟩
      simp [hdigits cs, hclose]
    · next after hafter =>
      split at h
      · cases h
      · split at h
        · next last hlast =>
          cases h
          have hmiddle := split Text.isBlank after
          have hsecond := split Text.isDecimalDigit
            (after.drop (after.takeWhile Text.isBlank).length)
          rw [List.drop_drop, hlast] at hsecond
          rw [hsecond] at hmiddle
          rw [hafter, hmiddle] at hfirst
          refine ⟨by simpa using hfirst, ?_⟩
          simp [hdigits, hblanks, hclose, hcomma]
        · cases h
    · cases h

/-- The type of a cast is the text between the quotes. -/
theorem typeName?_spec {cs t : List Char} (h : typeName? cs = some t) :
    cs = '\'' :: t ++ ['\''] ∧ t.all isPlain := by
  have hrest {c : Char} : isTypeRest c → isPlain c := isPlain_of_class (by decide)
  have hopen : isPlain '(' := by decide
  unfold typeName? at h
  split at h
  · next c cs =>
    have hword : cs = cs.takeWhile isTypeRest ++ cs.drop (cs.takeWhile isTypeRest).length :=
      List.prefix_append_drop (List.takeWhile_prefix _)
    have hplain : (cs.takeWhile isTypeRest).all isPlain :=
      List.all_eq_true.mpr fun c hc => hrest (List.mem_takeWhile_imp hc)
    split at h
    · cases h
    · next hc =>
      have hfirst : isPlain c := hrest (by
        have halpha : c.isAlpha := by simpa using hc
        simp [isTypeRest, Char.isAlphanum, halpha])
      dsimp only at h
      split at h
      · next hend =>
        cases h
        rw [hend] at hword
        exact ⟨by rw [List.cons_append, List.cons_append, ← hword], by simp [hfirst, hplain]⟩
      · next after hafter =>
        split at h
        · next size hsize =>
          cases h
          obtain ⟨hsplit, hsizes⟩ := typeSize?_spec hsize
          rw [hafter, hsplit] at hword
          refine ⟨?_, ?_⟩
          · have htext := congrArg (fun rest => '\'' :: c :: rest) hword
            simpa using htext
          · simp [hfirst, hplain, hopen, hsizes]
        · cases h
      · cases h
  · cases h

theorem woven_choiceArms (i : Nat) (arms : List String) :
    List.Forall₂ (fun arm p => Woven arm.toList [p]) (choiceArms i arms) arms := by
  have hwhen : Seam "WHEN ".toList := seam_plain (by decide)
  have hthen : Seam " THEN ".toList := seam_plain (by decide)
  induction arms generalizing i with
  | nil => exact .nil
  | cons arm arms ih =>
    exact .cons (((hwhen.then (seam_ofNat i)).then hthen).before (woven_single arm)) (ih (i + 1))

theorem woven_choice {word stop : String} (hword : Seam word.toList) (hstop : Glue stop)
    (c x y : String) :
    Woven (word ++ c ++ " THEN " ++ x ++ " ELSE " ++ y ++ stop).toList [c, x, y] := by
  have hthen : Glue " THEN " := glue_of_isGlue (by decide)
  have helse : Glue " ELSE " := glue_of_isGlue (by decide)
  simp only [String.append_assoc]
  exact hword.before ((woven_single c).glue hthen ((woven_single x).glue helse
    ((woven_single y).close hstop)))

/-- A call of a builtin is woven from its arguments. -/
theorem woven_render {b : Builtin} {name sql : String} {args : List String} {d : Dialect}
    (h : b.render name args d = .ok sql) : Woven sql.toList args := by
  have hspace : Glue " " := glue_of_isGlue (by decide)
  have hclose : Glue ")" := glue_of_isGlue (by decide)
  have hcall {word : String} (hword : word.toList.all isPlain) (x : String) :
      Woven (word ++ x ++ ")").toList [x] := by
    rw [String.append_assoc]
    exact (seam_plain hword).before ((woven_single x).close hclose)
  unfold render at h
  split at h
  · cases h
  · next haccepts =>
    split at h
    · cases h
      have hcase : Seam "CASE WHEN ".toList := seam_plain (by decide)
      exact woven_choice hcase (glue_of_isGlue (by decide)) _ _ _
    · next x y =>
      cases h
      have hlike : Glue " LIKE " := glue_of_isGlue (by decide)
      rw [String.append_assoc]
      exact (woven_single x).glue hlike (woven_single y)
    · cases h
      have hop : d.ilike.toList.all isPlain := by cases d <;> decide
      exact woven_operator hop _ _
    · next x y =>
      cases h
      have hop : d.ilike.toList.all isPlain := by cases d <;> decide
      have hlead : Seam " ".toList := seam_plain (by decide)
      have hconcat : Seam " || ".toList := seam_plain (by decide)
      have hpercent : Seam (Text.quoteLiteral "%").toList := ⟨still_literal "%", by decide⟩
      have hany : " '%' || " = " " ++ Text.quoteLiteral "%" ++ " || " := by decide
      have hlast : " || '%'" = " || " ++ Text.quoteLiteral "%" := by decide
      have hbefore : Seam " '%' || ".toList := by
        rw [hany]
        exact (hlead.then hpercent).then hconcat
      have hafter : Glue " || '%'" := by
        rw [hlast]
        exact (glue_of_isGlue (by decide)).append hpercent
      simp only [String.append_assoc]
      exact (woven_single x).glue hspace
        ((seam_plain hop).before (hbefore.before ((woven_single y).close hafter)))
    · cases h
      have hop : d.regexMatch.toList.all isPlain := by cases d <;> decide
      exact woven_operator hop _ _
    · cases h
      exact woven_list (glue_of_isGlue (by decide)) args
    · cases h
      have hnone : args = [] := by simpa [accepts, arity] using haccepts
      subst hnone
      exact .text (seam_plain (by decide))
    · next x y =>
      split at h
      · next t ht =>
        cases h
        obtain ⟨htext, hplain⟩ := typeName?_spec ht
        have htype : Seam (String.ofList t).toList := by
          rw [String.toList_ofList]
          exact seam_plain hplain
        have hbrace : '\x7b' ∉ y.toList := by
          rw [htext]
          simpa using fun hmem => by cases List.all_eq_true.mp hplain _ hmem
        have hcast : Seam "CAST(".toList := seam_plain (by decide)
        have has : Glue " AS " := glue_of_isGlue (by decide)
        have hend : Woven (.ofList t ++ ")").toList [y] :=
          .left hbrace (.text (htype.then hclose.seam))
        simp only [String.append_assoc]
        exact hcast.before ((woven_single x).glue has hend)
      · cases h
    · cases h
      exact hcall (by decide) _
    · cases h
      exact hcall (by decide) _
    · next x arms =>
      cases h
      have hcase : Seam "CASE ".toList := seam_plain (by decide)
      have hend : Glue " END" := glue_of_isGlue (by decide)
      have harms := (woven_join hspace (woven_choiceArms 0 arms)).close hend
      simp only [String.append_assoc]
      exact hcase.before ((woven_single x).glue hspace harms)
    · cases h
      exact hcall (by decide) _
    · cases h
      have hsum : Seam "SUM(CASE WHEN ".toList := seam_plain (by decide)
      exact woven_choice hsum (glue_of_isGlue (by decide)) _ _ _
    · cases h

end Builtin

namespace Compile

/-- A call is woven from its arguments. -/
theorem call_woven {f : Frame} {g g' : Gathered} {name sql : String} {args : List String}
    (hname : Expr.IsName name) (h : call f name args g = .ok (sql, g')) :
    Woven sql.toList args := by
  obtain ⟨b, -, h⟩ | ⟨-, rfl⟩ := call_cases h
  · exact Builtin.woven_render h
  · have hcomma : Glue ", " := glue_of_isGlue (by decide)
    have hcall := hname.seam.before (woven_list hcomma args).parenthesized
    simpa only [String.append_assoc] using hcall

/-! ### Operators -/

theorem woven_binary (op : BinaryOp) (l r : String) :
    Woven ("(" ++ l ++ " " ++ op.sql ++ " " ++ r ++ ")").toList [l, r] := by
  have hop : op.sql.toList.all isPlain := by cases op <;> decide
  simpa only [String.append_assoc] using (woven_operator hop l r).parenthesized

theorem woven_compare (op : CompareOp) (l r : String) :
    Woven (l ++ " " ++ op.sql ++ " " ++ r).toList [l, r] := by
  have hop : op.sql.toList.all isPlain := by cases op <;> decide
  exact woven_operator hop l r

/-- What a comparison that does not compile its right side writes of it. -/
def shortRight (right : Expr) : String :=
  ((globPattern? right).map Text.quoteLiteral).getD ""

theorem still_shortRight (right : Expr) : Still (shortRight right).toList := by
  unfold shortRight
  cases globPattern? right with
  | none => exact still_nil
  | some pattern => exact still_literal pattern

/-- A comparison that does not compile its right side is woven from its left side and a pattern. -/
theorem woven_shortComparison {op : CompareOp} {right : Expr} {rest : String}
    (h : shortComparison? op right = some rest) (l : String) :
    Woven (l ++ rest).toList [l, shortRight right] := by
  have hpattern {word pattern : String} (hword : Glue word)
      (hglob : globPattern? right = some pattern) :
      Woven (l ++ (word ++ Text.quoteLiteral pattern)).toList [l, shortRight right] := by
    rw [shortRight, hglob]
    exact (woven_single l).glue hword (woven_single _)
  have hnull {word : String} (hword : Glue word) :
      Woven (l ++ word).toList [l, shortRight .null] :=
    (woven_single l).follow ⟨.left (by simp [shortRight, globPattern?]) (.text hword.seam),
      hword.trails.apart⟩
  unfold shortComparison? at h
  split at h
  · next hglob =>
    cases h
    exact hpattern (glue_of_isGlue (by decide)) hglob
  · next hglob =>
    cases h
    exact hpattern (glue_of_isGlue (by decide)) hglob
  · cases h
    exact hnull (glue_of_isGlue (by decide))
  · cases h
    exact hnull (glue_of_isGlue (by decide))
  · cases h
    exact hnull (glue_of_isGlue (by decide))
  · cases h
    exact hnull (glue_of_isGlue (by decide))
  · cases h

theorem woven_logical (op : Connective) (parts : List String) :
    Woven ("(" ++ Text.join (" " ++ op.sql ++ " ") parts ++ ")").toList parts := by
  have hword : Glue (" " ++ op.sql ++ " ") := by
    cases op with
    | and => exact glue_of_isGlue (by decide)
    | or => exact glue_of_isGlue (by decide)
  exact (woven_list hword parts).parenthesized

theorem unarySql_woven (op : UnaryOp) (sql : String) : Woven (unarySql op sql).toList [sql] := by
  cases op with
  | not =>
    have hnot : Seam "NOT ".toList := seam_plain (by decide)
    exact hnot.before (woven_single sql)
  | neg =>
    have hopen : Seam "-(".toList := seam_plain (by decide)
    have hminus : Seam "-".toList := seam_plain (by decide)
    have hclose : Glue ")" := glue_of_isGlue (by decide)
    unfold unarySql
    dsimp only
    split
    · rw [String.append_assoc]
      exact hopen.before ((woven_single sql).close hclose)
    · exact hminus.before (woven_single sql)
  | pos => exact woven_single sql

theorem tupleSql_woven (items : List String) : Woven (tupleSql items).toList items := by
  unfold tupleSql
  cases items with
  | nil => exact .text (seam_plain (by decide))
  | cons item items => exact (woven_list (glue_of_isGlue (by decide)) (item :: items)).parenthesized

/-! ### Expressions -/

/-- The cases of an induction over what is compiled, for what weaving keeps: apart from paths,
strings, placeholders and sub-queries, each fragment is woven from those of its operands. The steps
keep `I`. -/
structure WovenCases (f : Frame) (R : Expr → Prop) (I : Gathered → Prop)
    (P : Expr → Gathered → String → Gathered → Prop)
    (Q : List Expr → Gathered → List String → Gathered → Prop) : Prop where
  legible : ∀ {e}, R e → e.Legible
  operand : ∀ {e x}, R e → x ∈ e.operands → R x
  run : ∀ {g g'}, Run f g g' → I g → I g'
  path : ∀ {head rest g sql g'}, I g → path f head rest g = .ok (sql, g') →
    P (.path head rest) g sql g'
  str : ∀ {text g sql g'}, R (.str text) → I g → string f text g = .ok (sql, g') →
    P (.str text) g sql g'
  placeholder : ∀ {name} g, R (.placeholder name) →
    P (.placeholder name) g (Placeholder.token name) g
  subquery : ∀ {name args g sql g'}, R (.call name args) → I g → isSubquery name = true →
    subqueryCall f args g = .ok (sql, g') → P (.call name args) g sql g'
  literal : ∀ {op right rest} g, R right → shortComparison? op right = some rest →
    P right g (shortRight right) g
  node : ∀ {e g parts mid sql} (aggregated : Bool), e.isNode = true → Q e.operands g parts mid →
    Woven sql.toList parts → P e g sql { mid with aggregated }
  nil : ∀ g, Q [] g [] g
  cons : ∀ {e rest g sql mid parts g'}, P e g sql mid → Q rest mid parts g' →
    Q (e :: rest) g (sql :: parts) g'

variable {f : Frame} {R : Expr → Prop} {I : Gathered → Prop}
  {P : Expr → Gathered → String → Gathered → Prop}
  {Q : List Expr → Gathered → List String → Gathered → Prop}

theorem WovenCases.cases (c : WovenCases f R I P Q) :
    Cases f R (fun e g sql g' => I g → P e g sql g')
      (fun es g parts g' => I g → Q es g parts g') where
  operand := c.operand
  path h hg := c.path hg h
  number g he _ := c.node g.aggregated rfl (c.nil g) (.text (c.legible he).isNumber.seam)
  str he h hg := c.str he hg h
  bool b g _ := by
    refine c.node g.aggregated rfl (c.nil g) (.text (seam_plain ?_))
    cases b <;> decide
  null g _ := c.node g.aggregated rfl (c.nil g) (.text (seam_plain (by decide)))
  placeholder g he _ := c.placeholder g he
  star g _ := c.node g.aggregated rfl (c.nil g) (.text (seam_plain (by decide)))
  subquery he hsub h hg := c.subquery he hg hsub h
  call he hsub _ hargs h hg := by
    rw [call_state h]
    exact c.node _ (by simp [Expr.isNode, hsub]) (hargs hg) (call_woven (c.legible he).isName h)
  binary {_ _ _ _ _ mid _ g'} h hl hr hg := by
    have hright := hr (c.run (expr_run _ h) hg)
    exact c.node g'.aggregated rfl (c.cons (hl hg) (c.cons hright (c.nil g'))) (woven_binary _ _ _)
  short {_ _ _ _ _ _ g'} he hs hl hg :=
    c.node g'.aggregated rfl (c.cons (hl hg) (c.cons (c.literal g' he hs) (c.nil g')))
      (woven_shortComparison hs _)
  compare {_ _ _ _ _ mid _ g'} h hl hr hg := by
    have hright := hr (c.run (expr_run _ h) hg)
    exact c.node g'.aggregated rfl (c.cons (hl hg) (c.cons hright (c.nil g'))) (woven_compare _ _ _)
  logical {_ _ _ _ g'} h hg := c.node g'.aggregated rfl (h hg) (woven_logical _ _)
  unary {_ _ _ _ g'} h hg :=
    c.node g'.aggregated rfl (c.cons (h hg) (c.nil g')) (unarySql_woven _ _)
  tuple {_ _ _ g'} h hg := c.node g'.aggregated rfl (h hg) (tupleSql_woven _)
  list {_ _ _ g'} h hg := c.node g'.aggregated rfl (h hg) (tupleSql_woven _)
  nil g _ := c.nil g
  cons h hfirst hrest hg := c.cons (hfirst hg) (hrest (c.run (expr_run _ h) hg))

end Compile

/-! ### Statements -/

namespace Select

theorem columnSql_woven {c : Fragment × String} (hname : Tidy c.2) :
    Woven (columnSql c).toList [c.1.sql] := by
  have has : Glue (" AS " ++ Text.quoteIdent c.2) :=
    (glue_of_isGlue (by decide)).append (seam_ident hname)
  rw [columnSql, String.append_assoc]
  exact (woven_single c.1.sql).close has

theorem orderSql_woven (t : Fragment × Bool) : Woven (orderSql t).toList [t.1.sql] := by
  refine (woven_single t.1.sql).close ?_
  cases t.2 with
  | true => exact glue_of_isGlue (by decide)
  | false => exact glue_of_isGlue (by decide)

theorem clause_trails {word : String} (hword : Glue word) {terms parts : List String}
    (h : List.Forall₂ (fun term part => Woven term.toList [part]) terms parts) :
    Trails (clause word terms) parts := by
  unfold clause
  cases h with
  | nil => exact trails_empty
  | cons hterm hterms =>
    exact hword.before (woven_join (glue_of_isGlue (by decide)) (.cons hterm hterms))

theorem bound_trails {word : String} (hword : Glue word) (n : Option Nat) :
    Trails (bound word n) [] := by
  unfold bound
  split
  · next n =>
    split
    · exact trails_empty
    · exact hword.before (.text (seam_ofNat n))
  · exact trails_empty

theorem fromSql_apart (rs : List Relation) : ∀ c ∈ (fromSql rs).toList.head?, isApart c := by
  unfold fromSql
  cases rs with
  | nil => simp
  | cons master joined =>
    dsimp only
    refine List.foldlRecOn (motive := fun sql : String => ∀ c ∈ sql.toList.head?, isApart c)
      joined _ ?_ ?_
    · simp
      decide
    · intro sql hsql r _
      cases r.joinSql? with
      | none => exact hsql
      | some join =>
        simp only [String.toList_append, List.append_assoc]
        refine apart_append hsql ?_
        simp
        decide

theorem fromSql_trails {rs : List Relation} (h : ∀ r ∈ rs, r.Tidy) : Trails (fromSql rs) [] :=
  ⟨.text (fromSql_spelled spelled_seam fun r hr => Relation.tidy_iff.mp (h r hr)), fromSql_apart rs⟩

theorem filterSql_trails (filter : Option Fragment) :
    Trails (filterSql filter) (filter.toList.map (·.sql)) := by
  unfold filterSql
  cases filter with
  | none => exact trails_empty
  | some part =>
    dsimp only
    split
    · next hempty =>
      have hbrace : '\x7b' ∉ part.sql.toList := by simp [String.isEmpty_iff.mp hempty]
      exact ⟨.left hbrace (.text seam_nil), by simp⟩
    · have hwhere : Glue " WHERE " := glue_of_isGlue (by decide)
      exact hwhere.before (woven_single part.sql)

theorem groupBy_trails (s : Select) (d : Dialect) :
    Trails (clause " GROUP BY " (s.groupBy d)) (s.groupBy d) :=
  clause_trails (glue_of_isGlue (by decide)) (List.forall₂_same.mpr fun p _ => woven_single p)

/-- What comes after the terms that a statement is grouped by. -/
def tailSql (s : Select) : String :=
  clause " ORDER BY " (s.orderBy.map orderSql) ++ bound " LIMIT " s.limit ++
    bound " OFFSET " s.offset

theorem tailSql_trails (s : Select) : Trails s.tailSql (s.orderBy.map (·.1.sql)) := by
  have hordered : Trails (clause " ORDER BY " (s.orderBy.map orderSql))
      (s.orderBy.map (·.1.sql)) := by
    refine clause_trails (glue_of_isGlue (by decide)) ?_
    rw [List.forall₂_map_left_iff, List.forall₂_map_right_iff, List.forall₂_same]
    exact fun t _ => orderSql_woven t
  have hlimit : Trails (bound " LIMIT " s.limit) [] :=
    bound_trails (glue_of_isGlue (by decide)) s.limit
  have hoffset : Trails (bound " OFFSET " s.offset) [] :=
    bound_trails (glue_of_isGlue (by decide)) s.offset
  have htail := (hordered.append hlimit).append hoffset
  rwa [List.append_nil, List.append_nil] at htail

/-- Around the tables, a statement is woven from its columns, and from its filter, the terms that it
is grouped by and those that it is ordered by. -/
theorem render_around (s : Select) (d : Dialect) (hnames : ∀ c ∈ s.columns, Tidy c.2) :
    ∃ first last, s.render d = first ++ fromSql s.relations ++ last ∧
      Woven first.toList (s.columns.map (·.1.sql)) ∧
      Trails last (s.filter.toList.map (·.sql) ++ s.groupBy d ++ s.orderBy.map (·.1.sql)) := by
  have hselect : Seam ("SELECT " ++ if s.distinct then "DISTINCT " else "").toList := by
    cases s.distinct with
    | true => exact seam_plain (by decide)
    | false => exact seam_plain (by decide)
  have hcomma : Glue ", " := glue_of_isGlue (by decide)
  have hlist : List.Forall₂ (fun text part => Woven text.toList [part]) (s.columns.map columnSql)
      (s.columns.map (·.1.sql)) := by
    rw [List.forall₂_map_left_iff, List.forall₂_map_right_iff, List.forall₂_same]
    exact fun c hc => columnSql_woven (hnames c hc)
  have hlast := ((filterSql_trails s.filter).append (s.groupBy_trails d)).append s.tailSql_trails
  refine ⟨_, _, ?_, hselect.before (woven_join hcomma hlist), hlast⟩
  simp only [render, tailSql, String.append_assoc]

/-- A statement is woven from its columns, its filter, the terms that it is grouped by and those
that it is ordered by. -/
theorem render_woven {s : Select} (d : Dialect) (hnames : ∀ c ∈ s.columns, Tidy c.2)
    (hrelations : ∀ r ∈ s.relations, r.Tidy) :
    Woven (s.render d).toList (s.columns.map (·.1.sql) ++ s.filter.toList.map (·.sql) ++
      s.groupBy d ++ s.orderBy.map (·.1.sql)) := by
  obtain ⟨first, last, hrender, hfirst, hlast⟩ := render_around s d hnames
  have hwhole := (hfirst.follow (fromSql_trails hrelations)).follow hlast
  rw [hrender]
  simpa only [List.append_assoc, List.nil_append] using hwhole

end Select

end PathQuery
