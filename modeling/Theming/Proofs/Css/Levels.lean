import Theming.Proofs.Compile.Layering
import Theming.Proofs.Compile.Vocabulary
import Theming.Proofs.Css.StateBlocks

/-! Merged maps, level by level. As long as no path leads to a declaration in one map and to a block
in another, a merged map has at every path the keys of both maps, each where it first appears, and a
declaration of the later map wins. So it does not matter from which end several maps are merged. -/

namespace Theming

namespace Style

theorem isBlock_overlay (base later : Style) : (base.overlay later).isBlock = later.isBlock := by
  cases later <;> cases base <;> simp [overlay, isBlock]

/-- Whatever stands at a path of merged styles is of the kind that stood there before. -/
theorem exists_at?_of_overlay {base later merged : Style} (hl : later.Proper) {path : List String}
    (h : (base.overlay later).at? path = some merged) :
    ∃ style, (base.at? path = some style ∨ later.at? path = some style) ∧
      style.isBlock = merged.isBlock := by
  induction path generalizing base later with
  | nil =>
    obtain rfl : base.overlay later = merged := by simpa [at?] using h
    exact ⟨later, .inr (by simp [at?]), (isBlock_overlay base later).symm⟩
  | cons key path ih =>
    cases later with
    | declaration text => simp [overlay, at?] at h
    | block later =>
      cases base with
      | declaration text => exact ⟨merged, .inr (by simpa [overlay] using h), rfl⟩
      | block base =>
        rw [overlay, at?] at h
        obtain ⟨style, hs, hm⟩ := Option.bind_eq_some_iff.1 h
        rw [Styles.find?_merge base hl.distinct] at hs
        cases hk : Table.find? later key with
        | none =>
          rw [hk] at hs
          exact ⟨merged, .inl ((at?_block_cons hs).trans hm), rfl⟩
        | some new =>
          rw [hk] at hs
          cases hb : Table.find? base key with
          | none =>
            obtain rfl : new = style := by simpa [hb] using hs
            exact ⟨merged, .inr ((at?_block_cons hk).trans hm), rfl⟩
          | some old =>
            obtain rfl : old.overlay new = style := by simpa [hb] using hs
            obtain ⟨found, hf, hkind⟩ := ih (hl.inner hk) hm
            exact ⟨found, hf.imp (at?_block_cons hb).trans (at?_block_cons hk).trans, hkind⟩

theorem Compatible.merge {a b c : Styles} (hb : (block b).Proper)
    (hac : (block a).Compatible (block c)) (hbc : (block b).Compatible (block c)) :
    (block (Styles.merge a b)).Compatible (block c) := by
  intro path x y hx hy
  have hoverlay : ((block a).overlay (block b)).at? path = some x := by rwa [overlay]
  obtain ⟨style, hs, hkind⟩ := exists_at?_of_overlay hb hoverlay
  rw [← hkind]
  exact hs.elim (fun hs => hac path style y hs hy) fun hs => hbc path style y hs hy

end Style

namespace Styles

variable {a b c : Styles}

theorem keys_merge_eq (ha : a.Distinct) (hb : b.Distinct) :
    Table.keys (merge a b) = (Table.keys a ++ Table.keys b).eraseDups := by
  have hnew : ((Table.keys b).removeAll (Table.keys a)).Nodup := hb.sublist List.filter_sublist
  rw [keys_merge a hb, List.eraseDups_append, eraseDups_of_nodup ha, eraseDups_of_nodup hnew]
  congr 1
  exact List.filter_congr fun key _ => by simp

theorem keys_blockAt_merge (hc : (Style.block a).Compatible (.block b))
    (ha : (Style.block a).Proper) (hb : (Style.block b).Proper) (path : List String) :
    Table.keys (blockAt (merge a b) path) =
      (Table.keys (blockAt a path) ++ Table.keys (blockAt b path)).eraseDups := by
  rw [blockAt_merge hc ha hb, keys_merge_eq (distinct_blockAt ha path) (distinct_blockAt hb path)]

theorem proper_merge (hc : (Style.block a).Compatible (.block b)) (ha : (Style.block a).Proper)
    (hb : (Style.block b).Proper) : (Style.block (merge a b)).Proper := by
  intro path styles hat
  have hblock : blockAt (merge a b) path = styles := by simp [blockAt, hat]
  rw [← hblock, blockAt_merge hc ha hb]
  exact distinct_merge (distinct_blockAt ha path) (distinct_blockAt hb path)

/-- Three maps merge to the same map from either end. At every level it has their keys in the order
in which they first appear, and every declaration is that of the last map that has it. -/
theorem three_merge_from_either_end (hab : (Style.block a).Compatible (.block b))
    (hac : (Style.block a).Compatible (.block c)) (hbc : (Style.block b).Compatible (.block c))
    (ha : (Style.block a).Proper) (hb : (Style.block b).Proper) (hc : (Style.block c).Proper) :
    merge (merge a b) c = merge a (merge b c) ∧
    (∀ path, Table.keys (blockAt (merge (merge a b) c) path) =
      (Table.keys (blockAt a path) ++ Table.keys (blockAt b path) ++
        Table.keys (blockAt c path)).eraseDups) ∧
    ∀ path, textAt? (merge (merge a b) c) path =
      (textAt? c path).or ((textAt? b path).or (textAt? a path)) := by
  have hkinds : (Style.block (merge a b)).Compatible (.block c) := hac.merge hb hbc
  have hproper : (Style.block (merge a b)).Proper := proper_merge hab ha hb
  refine ⟨merge_assoc hab hac hbc ha hb hc, fun path => ?_, fun path => ?_⟩
  · rw [keys_blockAt_merge hkinds hproper hc, keys_blockAt_merge hab ha hb]
    exact eraseDups_append_congr (eraseDups_of_nodup (nodup_eraseDups _)) rfl
  · rw [textAt?_merge hkinds hc, textAt?_merge hab hb]

def ink : Styles :=
  [("color", .declaration "black"), ("&:hover", .block [("color", .declaration "red")])]

def frame : Styles :=
  [("padding", .declaration "1px"), ("&:hover", .block [("padding", .declaration "2px")])]

def cover : Styles := [("&:hover", .block [("width", .declaration "3px"),
  ("color", .declaration "blue")]), ("padding", .declaration "4px")]

/-- The states that all three maps have merge into one, with the keys of the first in front. -/
theorem cover_over_frame_over_ink :
    (Style.block ink).Compatible (.block frame) ∧ (Style.block ink).Compatible (.block cover) ∧
    (Style.block frame).Compatible (.block cover) ∧
    merge (merge ink frame) cover = merge ink (merge frame cover) ∧
    Table.keys (merge (merge ink frame) cover) = ["color", "&:hover", "padding"] ∧
    Table.keys (blockAt (merge (merge ink frame) cover) ["&:hover"]) =
      ["color", "padding", "width"] ∧
    textAt? (merge (merge ink frame) cover) ["&:hover", "color"] = some "blue" ∧
    textAt? (merge (merge ink frame) cover) ["padding"] = some "4px" := by
  have hink : Fit .rules ink :=
    ⟨by decide, rfl, by decide, ⟨.rules, rfl, ⟨by decide, rfl, trivial⟩, nofun⟩, trivial⟩
  have hframe : Fit .rules frame :=
    ⟨by decide, rfl, by decide, ⟨.rules, rfl, ⟨by decide, rfl, trivial⟩, nofun⟩, trivial⟩
  have hcover : Fit .rules cover :=
    ⟨by decide, ⟨.rules, rfl, ⟨by decide, rfl, by decide, rfl, trivial⟩, nofun⟩, by decide, rfl,
      trivial⟩
  have hab := hink.block.compatible hframe.block
  have hac := hink.block.compatible hcover.block
  have hbc := hframe.block.compatible hcover.block
  obtain ⟨hassoc, hkeys, htexts⟩ := three_merge_from_either_end hab hac hbc hink.block.proper
    hframe.block.proper hcover.block.proper
  exact ⟨hab, hac, hbc, hassoc, (hkeys []).trans (by decide), (hkeys ["&:hover"]).trans (by decide),
    (htexts _).trans (by decide), (htexts _).trans (by decide)⟩

end Styles

end Theming
