import Mailgrid.Expansion
import Mailgrid.Proofs.Template

/-!
# The marker

The markup of the marker closes its row before its cell. It reads as a cell in
a row all the same.
-/

namespace Mailgrid.Expansion

open Markup (Forest Tag Token bareStyle)

/-- The source of the picture that the marker shows. -/
def markerSource : String :=
  "https://raw.githubusercontent.com/arvida/emoji-cheat-sheet.com/" ++
    "master/public/graphics/emojis/octopus.png"

def markerRow : Tag := ⟨"tr", [], false⟩

def markerCell : Tag := ⟨"td", [], false⟩

def markerImage : Tag := ⟨"img", [("src", .text markerSource)], true⟩

/-- What the marker reads as. -/
def markerForest : Forest Unit :=
  .element () markerRow (.element () markerCell (.element () markerImage .nil .nil) .nil) .nil

theorem toList_marker : marker.toList =
    bareStyle.startTag markerRow ['>'] ++ (bareStyle.startTag markerCell ['>'] ++
      (bareStyle.startTag markerImage [' ', '/', '>'] ++ (Markup.Style.endTag markerRow ++
        (Markup.Style.endTag markerCell ++ [])))) := by
  decide +kernel

theorem plain_markerImage : markerImage.Plain := by
  decide

theorem isLegible_markerRow : markerRow.isLegible = true := by decide

theorem isLegible_markerCell : markerCell.isLegible = true := by decide

theorem ofText_marker : Token.ofText marker.toList =
    [.startTag ⟨"tr", [], false⟩, .startTag ⟨"td", [], false⟩,
      .startTag ⟨"img", [("src", markerSource)], true⟩, .endTag "tr", .endTag "td"] := by
  have hrow := Tag.isReadable_of_isLegible isLegible_markerRow
  have hcell := Tag.isReadable_of_isLegible isLegible_markerCell
  have himage := Tag.isReadable_of_isLegible plain_markerImage.isLegible
  rw [toList_marker, Token.ofText, Token.scan_startTag hrow .open_, Token.scan_startTag hcell .open_,
    Token.scan_startTag himage .apart, Token.scan_endTag hrow, Token.scan_endTag hcell,
    Token.scan_nil]
  rfl

theorem read_marker : Format.standard.read marker = .ok markerForest := by
  have hamp : '&' ∉ marker.toList := by
    rw [toList_marker]
    simp only [List.mem_append, not_or]
    exact ⟨Tag.not_mem_startTag isLegible_markerRow (by decide),
      Tag.not_mem_startTag isLegible_markerCell (by decide),
      Tag.not_mem_startTag plain_markerImage.isLegible (by decide),
      Tag.not_mem_endTag isLegible_markerRow, Tag.not_mem_endTag isLegible_markerCell,
      List.not_mem_nil⟩
  rw [Format.read_standard, Format.protectedChars_of_not_mem hamp, Forest.parse, ofText_marker]
  rfl

end Mailgrid.Expansion
