namespace Parlance

-- Values in JSON. The entries of an object are in the order in which they are written.
inductive JsonValue where
  | null
  | bool (b : Bool)
  | int (n : Int)
  | float (x : Float)
  | str (s : String)
  | array (items : List JsonValue)
  | object (entries : List (String × JsonValue))

end Parlance
