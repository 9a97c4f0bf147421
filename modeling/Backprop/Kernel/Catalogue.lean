import Backprop.Kernel.Activation
import Backprop.Kernel.Classification
import Backprop.Kernel.Convolution
import Backprop.Kernel.Descent
import Backprop.Kernel.Elementwise
import Backprop.Kernel.MatrixProduct
import Backprop.Kernel.Pooling
import Backprop.Kernel.Tiling

/-! The kernels a host device has, by name. -/

namespace Backprop

inductive HostKernel where
  | copy
  | copyAdd
  | add
  | elementwiseProduct
  | elementwiseProductAdd
  | subtractFromConst
  | subtractFromConstGrad
  | addToMatrix
  | addToMatrixGrad
  | addToImage
  | addToImageGrad
  | splitData
  | splitDataGrad
  | appendId
  | relu
  | reluGrad
  | sigmoid
  | sigmoidGrad
  | tanh
  | tanhGrad
  | matrixProduct
  | matrixProductAdd
  | transpose
  | softmax
  | softmaxGrad
  | meanSquaredError
  | meanSquaredErrorGrad
  | crossEntropy
  | crossEntropyGrad
  | classificationAccuracy
  | convolution
  | convolutionAdd
  | convolutionWeightGrad
  | rotateAndReorder
  | maxPooling
  | maxPoolingGrad
  | gradientDescent
  | adam
deriving DecidableEq, Repr

namespace HostKernel

def name : HostKernel → String
  | copy => "Copy"
  | copyAdd => "CopyAdd"
  | add => "Add"
  | elementwiseProduct => "ElemWiseProduct"
  | elementwiseProductAdd => "ElemWiseProductAdd"
  | subtractFromConst => "SubtractFromConst"
  | subtractFromConstGrad => "SubtractFromConstGrad"
  | addToMatrix => "AddToMatrix"
  | addToMatrixGrad => "AddToMatrixGrad"
  | addToImage => "AddToImageTensor"
  | addToImageGrad => "AddToImageTensorGrad"
  | splitData => "SplitData"
  | splitDataGrad => "SplitDataGrad"
  | appendId => "AppendId"
  | relu => "ReLU"
  | reluGrad => "ReLUGrad"
  | sigmoid => "Sigmoid"
  | sigmoidGrad => "SigmoidGrad"
  | tanh => "Tanh"
  | tanhGrad => "TanhGrad"
  | matrixProduct => "MatrixMul"
  | matrixProductAdd => "MatrixMulAdd"
  | transpose => "Transpose"
  | softmax => "Softmax"
  | softmaxGrad => "SoftmaxGrad"
  | meanSquaredError => "MeanSquaredError"
  | meanSquaredErrorGrad => "MeanSquaredErrorGrad"
  | crossEntropy => "CrossEntropy"
  | crossEntropyGrad => "CrossEntropyGrad"
  | classificationAccuracy => "ClassificationAccuracy"
  | convolution => "Convolution"
  | convolutionAdd => "ConvolutionAdd"
  | convolutionWeightGrad => "ConvolutionWeightGrad"
  | rotateAndReorder => "RotateAndReorder"
  | maxPooling => "MaxPooling"
  | maxPoolingGrad => "MaxPoolingGrad"
  | gradientDescent => "GradientDescent"
  | adam => "Adam"

def all : List HostKernel := [
  copy, copyAdd, add, elementwiseProduct, elementwiseProductAdd, subtractFromConst,
  subtractFromConstGrad, addToMatrix, addToMatrixGrad, addToImage, addToImageGrad, splitData,
  splitDataGrad, appendId, relu, reluGrad, sigmoid, sigmoidGrad, tanh, tanhGrad, matrixProduct,
  matrixProductAdd, transpose, softmax, softmaxGrad, meanSquaredError, meanSquaredErrorGrad,
  crossEntropy, crossEntropyGrad, classificationAccuracy, convolution, convolutionAdd,
  convolutionWeightGrad, rotateAndReorder, maxPooling, maxPoolingGrad, gradientDescent, adam]

def ofName? (name : String) : Option HostKernel := all.find? (·.name == name)

@[specialize] def run {α : Type} [Scalar α] : HostKernel → Kernel α
  | copy => Kernel.copy
  | copyAdd => Kernel.copyAdd
  | add => Kernel.add
  | elementwiseProduct => Kernel.elementwiseProduct
  | elementwiseProductAdd => Kernel.elementwiseProductAdd
  | subtractFromConst => Kernel.subtractFromConst
  | subtractFromConstGrad => Kernel.subtractFromConstGrad
  | addToMatrix => Kernel.addToMatrix
  | addToMatrixGrad => Kernel.addToMatrixGrad
  | addToImage => Kernel.addToImage
  | addToImageGrad => Kernel.addToImageGrad
  | splitData => Kernel.splitData
  | splitDataGrad => Kernel.splitDataGrad
  | appendId => Kernel.appendId
  | relu => Kernel.relu
  | reluGrad => Kernel.reluGrad
  | sigmoid => Kernel.sigmoid
  | sigmoidGrad => Kernel.sigmoidGrad
  | tanh => Kernel.tanh
  | tanhGrad => Kernel.tanhGrad
  | matrixProduct => Kernel.matrixProduct
  | matrixProductAdd => Kernel.matrixProductAdd
  | transpose => Kernel.transpose
  | softmax => Kernel.softmax
  | softmaxGrad => Kernel.softmaxGrad
  | meanSquaredError => Kernel.meanSquaredError
  | meanSquaredErrorGrad => Kernel.meanSquaredErrorGrad
  | crossEntropy => Kernel.crossEntropy
  | crossEntropyGrad => Kernel.crossEntropyGrad
  | classificationAccuracy => Kernel.classificationAccuracy
  | convolution => Kernel.convolution
  | convolutionAdd => Kernel.convolutionAdd
  | convolutionWeightGrad => Kernel.convolutionWeightGrad
  | rotateAndReorder => Kernel.rotateAndReorder
  | maxPooling => Kernel.maxPooling
  | maxPoolingGrad => Kernel.maxPoolingGrad
  | gradientDescent => Kernel.gradientDescent
  | adam => Kernel.adam

end HostKernel

end Backprop
