import Bingit.MemeHandler
import Bingit.Placeholders

namespace Bingit

open Text Placeholders

namespace MemeHandler

/-- The file `static_roots/meme/edit.html`, cut at its placeholders. -/
def editHead : Text :=
  "<style>\n".toList ++
    "body \x7b \n".toList ++
    "    background-color: #283747;\n".toList ++
    "    color: white;\n".toList ++
    "    font-family: Impact;\n".toList ++
    "    text-align: center;\n".toList ++
    "\x7d\n".toList ++
    "\n".toList ++
    "h1 \x7b\n".toList ++
    "    font-size: 60px;\n".toList ++
    "\x7d\n".toList ++
    "\n".toList ++
    "select \x7b\n".toList ++
    "    height: 30px;\n".toList ++
    "    width: 280px;\n".toList ++
    "\x7d\n".toList ++
    "\n".toList ++
    "input \x7b\n".toList ++
    "    height: 35px;\n".toList ++
    "    width: 280px;\n".toList ++
    "\x7d\n".toList ++
    "</style>\n".toList ++
    "\n".toList ++
    "<body>\n".toList ++
    "    <h1>Editing Meme ".toList

def editMiddle : Text :=
  "</h1>\n".toList ++
    "    <form action=\"/meme/create\" method=\"post\">\n".toList ++
    "        Meme Template:<br>\n".toList ++
    "        <select name=\"image\">\n".toList ++
    "            <option>Choose...</option>\n".toList ++
    "            <option value=\"simply.jpg\">One Does Not Simply</option>\n".toList ++
    "            <option value=\"grumpy.jpg\">Grumpy Cat</option>\n".toList ++
    "            <option value=\"pikachu.jpg\">Surprised Pikachu</option>\n".toList ++
    "        </select>\n".toList ++
    "        <br><br>\n".toList ++
    "        Top Text:<br>\n".toList ++
    "        <input type=\"text\" name=\"top\" value=\"".toList

def editAfterTop : Text :=
  "\"><br><br>\n".toList ++
    "        Bottom Text:<br>\n".toList ++
    "        <input type=\"text\" name=\"bottom\" value=\"".toList

def editAfterBottom : Text :=
  "\"><br><br>\n".toList ++
    "        <input type=\"hidden\" name=\"update\" value=\"".toList

def editTail : Text :=
  "\">\n".toList ++
    "        <input type=\"submit\" style=\"width: 100px;\" value=\"Update\">\n".toList ++
    "    </form>\n".toList ++
    "</body>".toList

def editTemplate : Text :=
  editHead ++ ("$meme.id".toList ++ (editMiddle ++ ("$meme.top".toList ++ (editAfterTop ++ ("$meme.bot".toList ++
    (editAfterBottom ++ ("$meme.id".toList ++ editTail)))))))

theorem dollar_notMem_template : '$' ∉ editHead ∧ '$' ∉ editMiddle ∧ '$' ∉ editAfterTop ∧ '$' ∉ editAfterBottom ∧
    '$' ∉ editTail := by
  unfold editHead editMiddle editAfterTop editAfterBottom editTail
  -- the characters of the literals: evaluating `String.toList` decodes their bytes
  repeat rw [String.toList_ofList]
  decide +kernel

inductive Placeholder where
  | top
  | bot
  | id
  deriving DecidableEq

def Placeholder.mark : Placeholder → Text
  | .top => "$meme.top".toList
  | .bot => "$meme.bot".toList
  | .id => "$meme.id".toList

theorem markers : Markers Placeholder.mark '$' := by
  constructor
  · intro k
    cases k with
    | top => exact ⟨"meme.top".toList, rfl, by decide⟩
    | bot => exact ⟨"meme.bot".toList, rfl, by decide⟩
    | id => exact ⟨"meme.id".toList, rfl, by decide⟩
  · intro k k' hbegins
    cases k <;> cases k' <;> first | rfl | exact absurd hbegins (by decide)

section Placeholders

variable (replacement s : Text)

theorem replaceAll_top_id : replaceAll "$meme.top".toList replacement ("$meme.id".toList ++ s) =
    "$meme.id".toList ++ replaceAll "$meme.top".toList replacement s :=
  @replaceAll_other_mark Placeholder Placeholder.mark '$' markers .top .id (by decide) replacement s

theorem replaceAll_top_bot : replaceAll "$meme.top".toList replacement ("$meme.bot".toList ++ s) =
    "$meme.bot".toList ++ replaceAll "$meme.top".toList replacement s :=
  @replaceAll_other_mark Placeholder Placeholder.mark '$' markers .top .bot (by decide) replacement s

theorem replaceAll_bot_id : replaceAll "$meme.bot".toList replacement ("$meme.id".toList ++ s) =
    "$meme.id".toList ++ replaceAll "$meme.bot".toList replacement s :=
  @replaceAll_other_mark Placeholder Placeholder.mark '$' markers .bot .id (by decide) replacement s

end Placeholders

theorem replaceAll_top_template (top : Text) :
    replaceAll "$meme.top".toList top editTemplate =
      editHead ++ ("$meme.id".toList ++ (editMiddle ++ (top ++ (editAfterTop ++ ("$meme.bot".toList ++
        (editAfterBottom ++ ("$meme.id".toList ++ editTail))))))) := by
  obtain ⟨hhead, hmiddle, htop, hbottom, htail⟩ := dollar_notMem_template
  have hplain {a : Text} (h : '$' ∉ a) (s : Text) : replaceAll "$meme.top".toList top (a ++ s) =
      a ++ replaceAll "$meme.top".toList top s := replaceAll_append_of_notMem h top s
  have hlast : replaceAll "$meme.top".toList top editTail = editTail := replaceAll_of_notMem htail top
  rw [editTemplate, hplain hhead, replaceAll_top_id, hplain hmiddle, replaceAll_pattern (by decide), hplain htop,
    replaceAll_top_bot, hplain hbottom, replaceAll_top_id, hlast]

theorem editContent_eq (row : MemeRow) (memeId : Text) :
    ∃ rest, editContent editTemplate row memeId = editHead ++ (memeId ++ (editMiddle ++ rest)) := by
  obtain ⟨hhead, hmiddle, -, -, -⟩ := dollar_notMem_template
  have hbot {a : Text} (h : '$' ∉ a) (s : Text) : replaceAll "$meme.bot".toList row.bottom (a ++ s) =
      a ++ replaceAll "$meme.bot".toList row.bottom s := replaceAll_append_of_notMem h row.bottom s
  have hid {a : Text} (h : '$' ∉ a) (s : Text) : replaceAll "$meme.id".toList memeId (a ++ s) =
      a ++ replaceAll "$meme.id".toList memeId s := replaceAll_append_of_notMem h memeId s
  rw [editContent, replaceAll_top_template, hbot hhead, replaceAll_bot_id, hbot hmiddle, hid hhead,
    replaceAll_pattern (by decide), hid hmiddle]
  exact ⟨_, rfl⟩

theorem afterTexts_head : (∃ s, editAfterTop = '"' :: s) ∧ ∃ s, editAfterBottom = '"' :: s := by
  unfold editAfterTop editAfterBottom
  repeat rw [String.toList_ofList]
  exact ⟨⟨_, rfl⟩, ⟨_, rfl⟩⟩

theorem editContent_plain {row : MemeRow} (htopBot : ¬ "$meme.bot".toList <:+: row.top)
    (htopId : ¬ "$meme.id".toList <:+: row.top) (hbottomId : ¬ "$meme.id".toList <:+: row.bottom) (memeId : Text) :
    editContent editTemplate row memeId =
      editHead ++ (memeId ++ (editMiddle ++ (row.top ++ (editAfterTop ++ (row.bottom ++
        (editAfterBottom ++ (memeId ++ editTail))))))) := by
  obtain ⟨hhead, hmiddle, htop, hbottom, htail⟩ := dollar_notMem_template
  obtain ⟨⟨t, ht⟩, b, hb⟩ := afterTexts_head
  have hbot {a : Text} (h : '$' ∉ a) (s : Text) : replaceAll "$meme.bot".toList row.bottom (a ++ s) =
      a ++ replaceAll "$meme.bot".toList row.bottom s := replaceAll_append_of_notMem h row.bottom s
  have hid {a : Text} (h : '$' ∉ a) (s : Text) : replaceAll "$meme.id".toList memeId (a ++ s) =
      a ++ replaceAll "$meme.id".toList memeId s := replaceAll_append_of_notMem h memeId s
  have hbotTop (s : Text) : replaceAll "$meme.bot".toList row.bottom (row.top ++ (editAfterTop ++ s)) =
      row.top ++ replaceAll "$meme.bot".toList row.bottom (editAfterTop ++ s) := by
    rw [ht]
    exact replaceAll_append_of_not_infix htopBot (by decide +kernel) row.bottom
  have hidTop (s : Text) : replaceAll "$meme.id".toList memeId (row.top ++ (editAfterTop ++ s)) =
      row.top ++ replaceAll "$meme.id".toList memeId (editAfterTop ++ s) := by
    rw [ht]
    exact replaceAll_append_of_not_infix htopId (by decide +kernel) memeId
  have hidBottom (s : Text) : replaceAll "$meme.id".toList memeId (row.bottom ++ (editAfterBottom ++ s)) =
      row.bottom ++ replaceAll "$meme.id".toList memeId (editAfterBottom ++ s) := by
    rw [hb]
    exact replaceAll_append_of_not_infix hbottomId (by decide +kernel) memeId
  have hbotLast : replaceAll "$meme.bot".toList row.bottom editTail = editTail := replaceAll_of_notMem htail row.bottom
  have hidLast : replaceAll "$meme.id".toList memeId editTail = editTail := replaceAll_of_notMem htail memeId
  rw [editContent, replaceAll_top_template, hbot hhead, replaceAll_bot_id, hbot hmiddle, hbotTop, hbot htop,
    replaceAll_pattern (by decide), hbot hbottom, replaceAll_bot_id, hbotLast]
  rw [hid hhead, replaceAll_pattern (by decide), hid hmiddle, hidTop, hid htop, hidBottom, hid hbottom,
    replaceAll_pattern (by decide), hidLast]

end MemeHandler

end Bingit
