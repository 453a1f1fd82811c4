import RecordLinkage.Settings.Value

namespace RecordLinkage.Setting

def valueKey : String := "___figment_value_value"

def reservedKey : String := "___figment_value_id"

mutual

/-- The value that is meant: a table with a value under `valueKey` stands for that value, however
deep it lies. There is none where the reserved key is used. -/
def unwrap : Setting → Option Setting
  | .list items => .list <$> unwrapItems items
  | .table entries => do
    let entries ← unwrapEntries entries
    return (entries.lookup valueKey).getD (.table entries)
  | v => some v

def unwrapItems : List Setting → Option (List Setting)
  | [] => some []
  | v :: rest => return (← unwrap v) :: (← unwrapItems rest)

def unwrapEntries : List (String × Setting) → Option (List (String × Setting))
  | [] => some []
  | (key, v) :: rest =>
    if key = reservedKey then none else return (key, ← unwrap v) :: (← unwrapEntries rest)

end

end RecordLinkage.Setting
