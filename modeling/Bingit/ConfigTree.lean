import Bingit.Text
import Std.Data.TreeMap.Lemmas

namespace Bingit

inductive NginxConfigStatement where
  | mk (tokens : List Text) (childBlock : Option (List NginxConfigStatement))

abbrev NginxConfig := List NginxConfigStatement

namespace NginxConfigStatement

def tokens : NginxConfigStatement → List Text
  | .mk tokens _ => tokens

def childBlock : NginxConfigStatement → Option NginxConfig
  | .mk _ childBlock => childBlock

end NginxConfigStatement

abbrev HandlerPaths := Std.TreeMap Text (Text × NginxConfig)

namespace NginxConfig

def getKeyValue (key : Text) : NginxConfig → Text
  | [] => []
  | .mk [k, v] none :: rest => if k = key then v else getKeyValue key rest
  | _ :: rest => getKeyValue key rest

end NginxConfig

mutual

def NginxConfigStatement.getHandlerPaths : NginxConfigStatement → HandlerPaths → HandlerPaths
  | .mk _ none, map => map
  | .mk tokens (some child), map =>
    match tokens with
    | [keyword, handlerType] =>
      if keyword = "handler".toList then
        let path := NginxConfig.getKeyValue "location".toList child
        -- the duplicate test looks the handler's type up among the locations
        if path ≠ [] ∧ handlerType ∉ map then map.insert path (handlerType, child) else map
      else NginxConfig.getHandlerPaths child map
    | _ => NginxConfig.getHandlerPaths child map
termination_by structural statement => statement

def NginxConfig.getHandlerPaths : NginxConfig → HandlerPaths → HandlerPaths
  | [], map => map
  | statement :: rest, map => NginxConfig.getHandlerPaths rest (statement.getHandlerPaths map)
termination_by structural config => config

end

end Bingit
