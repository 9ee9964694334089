import Potfit.Except
import Potfit.Table.Header
import Potfit.Table.Read
import Potfit.Table.Image
import Potfit.Table.Run
import Potfit.Table.Layout
import Potfit.Table.Contents
import Potfit.Table.Index
import Potfit.Table.Bounds
import Potfit.Table.Errors
import Potfit.Castep.Text
import Potfit.Castep.Format
import Potfit.Castep.Config
import Potfit.Castep.Read
import Potfit.Castep.Potentials
import Potfit.Castep.Steps
import Potfit.Castep.Groups
import Potfit.Castep.Output
import Potfit.Castep.Cell
import Potfit.Castep.Energy
import Potfit.Castep.Forces
import Potfit.Castep.Main
import Potfit.Castep.Lines
