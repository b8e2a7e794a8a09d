import AtScript.Keyword.Basic

/-! # Keyword names in dumps -/

namespace AtScript.Keyword

/-- The name that dumps give a keyword. -/
def dumpName : Keyword → String
  | .comment => "Comment"
  | .exec => "Exec"
  | .script => "Script"
  | .set => "Set"
  | .swap => "Swap"
  | .update .add => "AddTo"
  | .update .div => "DivTo"
  | .update .mod => "ModTo"
  | .update .mul => "MulTo"
  | .update .sub => "SubTo"
  | .newline => "Nl"
  | .message => "Msg"
  | .write => "Write"
  | .abs => "Abs"
  | .arithmetic .add => "Add"
  | .concat => "Concat"
  | .arithmetic .div => "Div"
  | .format => "Format"
  | .get => "Get"
  | .getValue => "GetValue"
  | .lower => "Lower"
  | .arithmetic .mod => "Mod"
  | .arithmetic .mul => "Mul"
  | .replace => "Replace"
  | .random => "Rnd"
  | .arithmetic .sub => "Sub"
  | .substring => "Substring"
  | .trim => "Trim"
  | .upper => "Upper"
  | .branch .ifWord => "If"
  | .branch .thenWord => "Then"
  | .branch .elseIf => "ElseIf"
  | .branch .elseWord => "Else"
  | .branch .endIf => "EndIf"
  | .compare .eq => "Eq"
  | .ask .isFalse => "False"
  | .askStored .isFalse => "FalseData"
  | .compare .ge => "Ge"
  | .compare .gt => "Gt"
  | .ask .isBool => "IsBool"
  | .askStored .isBool => "IsBoolData"
  | .ask .isNull => "IsNull"
  | .askStored .isNull => "IsNullData"
  | .ask .isScript => "IsScript"
  | .askStored .isScript => "IsScriptData"
  | .compare .le => "Le"
  | .compare .lt => "Lt"
  | .compare .ne => "Ne"
  | .chance => "Rand"
  | .ask .isTrue => "True"
  | .askStored .isTrue => "TrueData"
  | .connector .and => "And"
  | .connector .or => "Or"
  | .connector .not => "Not"
  | .loop .range => "For"
  | .endLoop .range => "EndFor"
  | .loop .keys => "ForEachKey"
  | .endLoop .keys => "EndForEachKey"
  | .loop .items => "ForEachList"
  | .endLoop .items => "EndForEachList"
  | .list .add => "AddList"
  | .list .clear => "ClearList"
  | .list .get => "GetList"
  | .list .insertAt => "InsertAtList"
  | .list .length => "ListLength"
  | .list .removeAt => "RemoveAtList"
  | .list .set => "SetList"
  | .array .clear => "ClearArray"
  | .array .get => "GetArray"
  | .array .set => "SetArray"
  | .receive => "GetInChannel"
  | .send => "SetOutChannel"

end AtScript.Keyword
